import MergeOnRead.Log.TableMemory
import MergeOnRead.Proofs.Lists
import MergeOnRead.Proofs.SnapshotLog

/-!
# Commits in memory

The metadata of a table in memory has what the log of the table has (`TableMemory.ofLog`), as long
as schemas and snapshots are numbered from the oldest one on (`TableLog.Numbered`).  Its queries
give the same answers, and its commits, which look at the files one by one and write entry by entry,
come to the same as the commits of the log (`commitFiles_ofLog`, `commitSchema_ofLog`).  In
particular a commit that fails has written nothing.

Strategy: `Writing.forIn_check` says that a loop which only looks at its items ends with the first
one that is bad, and leaves everything as it is.
-/

namespace MergeOnRead

/-! ## Running a program -/

namespace Writing

variable {σ α β : Type} {s t : σ} {e : Error}

/-- What comes of a check that has found something wrong, or nothing. -/
def check : Option Error → Except Error PUnit
  | some e => .error e
  | none => .ok ⟨⟩

/-- A loop that checks item by item ends with the first thing that is wrong, and writes nothing. -/
theorem forIn_check {fault : β → Option Error} {body : β → PUnit → Writing σ (ForInStep PUnit)}
    (hbody : ∀ x, body x ⟨⟩ s = ((check (fault x)).map .yield, s)) (xs : List β) :
    (forIn xs PUnit.unit body : Writing σ PUnit) s = (check (xs.findSome? fault), s) := by
  induction xs with
  | nil => rfl
  | cons x xs ih =>
      have hx := hbody x
      rw [List.forIn_cons, List.findSome?_cons]
      cases hfault : fault x with
      | some e =>
          rw [hfault] at hx
          exact bind_of_error hx
      | none =>
          rw [hfault] at hx
          exact (bind_of_ok hx).trans ih

/-- A loop that raises an error at the first item with a property. -/
theorem forIn_throw (p : β → Bool) (error : β → Error) (xs : List β) (s : σ) :
    (forIn xs PUnit.unit fun x _ =>
        if p x = true then do throw (error x); pure (.yield ⟨⟩) else pure (.yield ⟨⟩) :
        Writing σ PUnit) s =
      (check ((xs.find? p).map error), s) := by
  rw [List.find?_eq_findSome?_guard, List.map_findSome?]
  refine forIn_check (fun x => ?_) xs
  rw [Function.comp_apply, Option.guard]
  cases p x <;> rfl

end Writing

/-! ## The memory of a log -/

namespace TableLog

/-- Schemas and snapshots have ascending numbers. -/
structure Numbered (log : TableLog) : Prop where
  schemas : log.schemas.Pairwise fun s t => t.id < s.id
  snapshots : log.snapshots.Pairwise fun s t => t.id < s.id

variable {log : TableLog}

theorem numbered_start (schema : TableSchema) : (start schema).Numbered :=
  ⟨List.pairwise_singleton .., .nil⟩

/-- The next snapshot has a higher number than all others. -/
theorem lt_nextSnapshot (h : log.Numbered) (kind : CommitKind) (data : List DataFile)
    (deletes : List DeleteFile) :
    ∀ t ∈ log.snapshots, t.id < (log.nextSnapshot kind data deletes).id := by
  intro t ht
  have hsorted := h.snapshots
  have hid : (log.nextSnapshot kind data deletes).id =
      (log.snapshots.head?.map (·.id)).getD 0 + 1 := rfl
  rw [hid]
  cases hss : log.snapshots with
  | nil => simp [hss] at ht
  | cons s rest =>
      rw [hss] at ht hsorted
      have hle : t.id ≤ s.id := by
        rcases List.mem_cons.1 ht with rfl | ht
        · exact Int.le_refl _
        · exact Int.le_of_lt ((List.pairwise_cons.1 hsorted).1 t ht)
      simp only [List.head?_cons, Option.map_some, Option.getD_some]
      omega

theorem Numbered.addSnapshot (h : log.Numbered) (kind : CommitKind) (data : List DataFile)
    (deletes : List DeleteFile) :
    Numbered { log with snapshots := log.nextSnapshot kind data deletes :: log.snapshots } :=
  ⟨h.schemas, List.pairwise_cons.2 ⟨lt_nextSnapshot h kind data deletes, h.snapshots⟩⟩

theorem Numbered.addSchema (h : log.Numbered) {schema : TableSchema}
    (hnext : schema.id = log.schema.id + 1) :
    Numbered { log with schema, olderSchemas := log.schemas } :=
  ⟨pairwise_schemas_addSchema h.schemas hnext, h.snapshots⟩

/-- As long as no schema is added, the current one stays. -/
theorem Numbered.schema_eq_iff {log' : TableLog} (h : log'.Numbered)
    (hschemas : log.schemas <:+ log'.schemas) :
    log'.schema = log.schema ↔ log'.schema.id = log.schema.id := by
  refine ⟨congrArg TableSchema.id, fun hid => ?_⟩
  rcases List.mem_cons.1 (hschemas.subset (List.mem_cons_self ..)) with heq | hmem
  · exact heq.symm
  · have := (List.pairwise_cons.1 h.schemas).1 _ hmem
    omega

end TableLog

namespace TableMemory

open Writing

/-- The metadata in memory of a table with a log. -/
def ofLog (log : TableLog) : TableMemory where
  schemas := log.schemas.reverse.map fun s => (s.id, s)
  currentSchemaId := log.schema.id
  snapshots := log.snapshots.reverse.map fun s => (s.id, s)
  currentSnapshotId := log.current?.map (·.id)

/-- What has ascending numbers is found by its number. -/
theorem lookup_map_reverse {α : Type} {id : α → Int} {xs : List α}
    (h : xs.Pairwise fun x y => id y < id x) (i : Int) :
    (xs.reverse.map fun x => (id x, x)).lookup i = xs.find? fun x => id x == i := by
  have hnodup : (xs.map id).Nodup := List.pairwise_map.2 (h.imp fun hlt => Int.ne_of_gt hlt)
  have hkeys : ((xs.reverse.map fun x => (id x, x)).map (·.1)).Nodup := by
    simpa [List.map_map, Function.comp_def] using List.nodup_reverse.2 hnodup
  ext x
  rw [lookup_eq_some_iff_mem hkeys]
  constructor
  · intro hmem
    obtain ⟨y, hy, heq⟩ := List.mem_map.1 hmem
    cases heq
    cases hfind : xs.find? fun y => id y == id x with
    | none => exact absurd (List.find?_eq_none.1 hfind x (List.mem_reverse.1 hy)) (by simp)
    | some z =>
        have hid : id z = id x := by simpa using List.find?_some hfind
        rw [List.inj_on_of_nodup_map hnodup (List.mem_of_find?_eq_some hfind)
          (List.mem_reverse.1 hy) hid]
  · intro hfind
    have hid : id x = i := by simpa using List.find?_some hfind
    exact List.mem_map.2
      ⟨x, List.mem_reverse.2 (List.mem_of_find?_eq_some hfind), by rw [hid]⟩

/-- A new number comes last. -/
theorem put_of_not_mem {α : Type} {id : Int} {a : α} {entries : List (Int × α)}
    (h : id ∉ entries.map (·.1)) : put id a entries = entries ++ [(id, a)] := by
  induction entries with
  | nil => rfl
  | cons entry entries ih =>
      rw [List.map_cons, List.mem_cons, not_or] at h
      rw [put, if_neg (Ne.symm h.1), ih h.2]
      rfl

variable {log : TableLog}

/-! ### Queries -/

theorem start_eq (schema : TableSchema) : start schema = ofLog (.start schema) := rfl

theorem schema_ofLog (h : log.Numbered) : (ofLog log).schema = .ok log.schema := by
  rw [schema, entry, ofLog, lookup_map_reverse h.schemas, TableLog.schemas,
    List.find?_cons_of_pos (by simp)]

theorem schemaById_ofLog (h : log.Numbered) (id : Int) :
    (ofLog log).schemaById id = log.schemaById id := by
  rw [schemaById, ofLog, lookup_map_reverse h.schemas]
  rfl

theorem isNone_lookup_schemas (h : log.Numbered) (id : Int) :
    ((ofLog log).schemas.lookup id).isNone = !log.hasSchema id := by
  rw [ofLog, lookup_map_reverse h.schemas, TableLog.hasSchema]
  simp [← List.isSome_find?]

theorem parent_ofLog (h : log.Numbered) :
    ((ofLog log).currentSnapshotId.bind fun id => (ofLog log).snapshots.lookup id) =
      log.current? := by
  simp only [ofLog, lookup_map_reverse h.snapshots, TableLog.current?]
  cases log.snapshots with
  | nil => rfl
  | cons s rest => simp

theorem currentSnapshot_ofLog (h : log.Numbered) :
    (ofLog log).currentSnapshot = .ok log.current? := by
  have hparent := parent_ofLog h
  have hid : (ofLog log).currentSnapshotId = log.current?.map (·.id) := rfl
  rw [hid] at hparent
  rw [currentSnapshot, hid]
  cases hcurrent : log.current? with
  | none => rfl
  | some s =>
      rw [hcurrent] at hparent
      have hlookup : (ofLog log).snapshots.lookup s.id = some s := hparent
      simp only [Option.map_some, entry, hlookup]
      rfl

theorem snapshot_ofLog (h : log.Numbered) (id : Int) :
    (ofLog log).snapshot id = log.snapshot id := by
  rw [snapshot, ofLog, lookup_map_reverse h.snapshots]
  rfl

theorem allSnapshots_ofLog (h : log.Numbered) :
    (ofLog log).allSnapshots = log.snapshots.reverse := by
  have hsorted : (ofLog log).snapshots.Pairwise fun s t => decide (s.1 ≤ t.1) = true :=
    List.pairwise_map.2
      ((List.pairwise_reverse.2 h.snapshots).imp fun hlt => decide_eq_true (Int.le_of_lt hlt))
  rw [allSnapshots, List.mergeSort_of_pairwise hsorted]
  simp [ofLog, Function.comp_def]

/-! ### Commits -/

/-- What is written for the next snapshot is the metadata of the log with it. -/
theorem ofLog_addSnapshot {s : Snapshot} (h : ∀ t ∈ log.snapshots, t.id < s.id) :
    ofLog { log with snapshots := s :: log.snapshots } =
      { ofLog log with
        snapshots := put s.id s (ofLog log).snapshots, currentSnapshotId := some s.id } := by
  have hnew : s.id ∉ (ofLog log).snapshots.map (·.1) := by
    simpa [ofLog] using fun t ht => Int.ne_of_lt (h t ht)
  rw [put_of_not_mem hnew]
  simp [ofLog, TableLog.current?, TableLog.schemas]

theorem ofLog_addSchema {schema : TableSchema} (h : ∀ t ∈ log.schemas, t.id < schema.id) :
    ofLog { log with schema, olderSchemas := log.schemas } =
      { ofLog log with
        schemas := put schema.id schema (ofLog log).schemas, currentSchemaId := schema.id } := by
  have hnew : schema.id ∉ (ofLog log).schemas.map (·.1) := by
    simpa [ofLog] using fun t ht => Int.ne_of_lt (h t ht)
  rw [put_of_not_mem hnew]
  simp [ofLog, TableLog.current?, TableLog.schemas]

/-- The first key field of a delete file that a schema does not have. -/
def unknownField (schema : TableSchema) (f : DeleteFile) : Option LogError :=
  (f.fieldIds.find? fun id => (schema.findField? id).isNone).map (.deleteOfUnknownField f.path ·)

/-- The key fields are looked up file by file, until one is unknown. -/
theorem forIn_deletes (schema : TableSchema) (deletes : List DeleteFile) (m : TableMemory) :
    (forIn deletes PUnit.unit fun f _ => do
        forIn f.fieldIds PUnit.unit fun id _ =>
          if (schema.findField? id).isNone = true then do
            throw (.log (.deleteOfUnknownField f.path id))
            pure (.yield ⟨⟩)
          else pure (.yield ⟨⟩)
        pure (.yield ⟨⟩) : Writing TableMemory PUnit) m =
      (check ((deletes.findSome? (unknownField schema)).map .log), m) := by
  rw [List.map_findSome?]
  refine forIn_check (fun f => ?_) deletes
  have hids := forIn_throw (fun id => (schema.findField? id).isNone)
    (fun id => .log (.deleteOfUnknownField f.path id)) f.fieldIds m
  rw [Function.comp_apply, unknownField]
  cases hfind : f.fieldIds.find? fun id => (schema.findField? id).isNone with
  | some id =>
      rw [hfind] at hids
      exact bind_of_error hids
  | none =>
      rw [hfind] at hids
      exact bind_of_ok hids

/-- Files are committed as they are to the log, and nothing is written if they are refused. -/
theorem commitFiles_ofLog (h : log.Numbered) (kind : CommitKind) (data : List DataFile)
    (deletes : List DeleteFile) :
    commitFiles kind data deletes (ofLog log) =
      match log.commitFiles kind data deletes with
      | .ok (s, log') => (.ok s, ofLog log')
      | .error e => (.error e, ofLog log) := by
  have hdata := forIn_throw (fun f : DataFile => !log.hasSchema f.schemaId)
    (fun f => .log (.fileOfUnknownSchema f.path f.schemaId)) data (ofLog log)
  have hdeletes := forIn_deletes log.schema deletes (ofLog log)
  rw [commitFiles, bind_of_ok get_eq]
  simp only [parent_ofLog h, isNone_lookup_schemas h]
  rw [bind_of_ok ((lift_eq _).trans (by rw [schema_ofLog h]))]
  cases hfault : data.find? fun f => !log.hasSchema f.schemaId with
  | some f =>
      have hrefused :
          log.refusal? data deletes = some (.fileOfUnknownSchema f.path f.schemaId) := by
        rw [TableLog.refusal?, hfault]
      rw [hfault] at hdata
      rw [bind_of_error hdata, TableLog.commitFiles, hrefused]
  | none =>
      have hrefusal : log.refusal? data deletes = deletes.findSome? (unknownField log.schema) := by
        rw [TableLog.refusal?, hfault]
        rfl
      rw [hfault] at hdata
      rw [bind_of_ok hdata, TableLog.commitFiles, hrefusal]
      cases hfield : deletes.findSome? (unknownField log.schema) with
      | some e =>
          rw [hfield] at hdeletes
          rw [bind_of_error hdeletes]
      | none =>
          have hlt := TableLog.lt_nextSnapshot h kind data deletes
          rw [hfield] at hdeletes
          rw [bind_of_ok hdeletes]
          exact congrArg (Prod.mk _) (ofLog_addSnapshot hlt).symm

/-- A schema is committed as it is to the log, and nothing is written if it is not the next. -/
theorem commitSchema_ofLog (h : log.Numbered) (schema : TableSchema) :
    commitSchema schema (ofLog log) =
      match log.commitSchema schema with
      | .ok log' => (.ok schema, ofLog log')
      | .error e => (.error e, ofLog log) := by
  unfold commitSchema TableLog.commitSchema
  rw [bind_of_ok get_eq, bind_of_ok ((lift_eq _).trans (by rw [schema_ofLog h]))]
  by_cases hnext : schema.id = log.schema.id + 1
  · have hlt := (List.pairwise_cons.1 (TableLog.pairwise_schemas_addSchema h.schemas hnext)).1
    rw [if_neg (not_not_intro hnext), if_pos hnext]
    exact congrArg (Prod.mk _) (ofLog_addSchema hlt).symm
  · rw [if_pos hnext, if_neg hnext]
    rfl

end TableMemory

end MergeOnRead
