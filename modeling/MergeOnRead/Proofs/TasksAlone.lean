import MergeOnRead.Proofs.CachedScans
import MergeOnRead.Proofs.Preparation

/-!
# Tasks that are read alone

What a task gives when nothing is kept does not depend on what was done before.  This file compares
with it what tasks give that are read one after another, by a table that may keep indexes:

* `readAll_run_eq`: the tasks give what each of them gives alone, with the first error in their
  order, however many of them are read at a time;
* `drained_eq`: what a reader gives to the end is found batch by batch.

An index that is kept must have been loaded from one of some files, and files with one key must come
in one format, so that they load alike (`Table.Steady`).
-/

namespace MergeOnRead

/-! ## Reading to the end -/

namespace Reader

theorem remaining_readBatch (r : Reader) : r.readBatch.2.remaining = r.remaining - 1 := by
  induction r with
  | stream batches closings => cases batches <;> rfl
  | tracked consumed inner ih =>
      rw [readBatch, remaining, ← ih]
      split <;> simp_all [remaining]
  | reported path inner ih | conformed names header inner ih | projected mapping inner ih
  | filtered filter inner ih => exact ih

/-- There is no batch at the end. -/
theorem readBatch_of_remaining_eq_zero {r : Reader} (h : r.remaining = 0) :
    r.readBatch.1 = .ok none := by
  induction r with
  | stream batches closings =>
      cases batches with
      | nil => rfl
      | cons b bs => cases h
  | tracked consumed inner ih =>
      have hinner := ih h
      rw [readBatch]
      split
      · rename_i hbatch
        rw [hbatch] at hinner
        cases hinner
      · rename_i hbatch
        rw [hbatch] at hinner
        exact hinner
  | reported path inner ih =>
      simp only [readBatch, ih h]
      rfl
  | conformed names header inner ih | projected mapping inner ih | filtered filter inner ih =>
      simp only [readBatch, ih h]

end Reader

namespace Table

/-- The batches of a reader that hold rows, unless an error comes. -/
def drained (r : Reader) : Except Error (List Batch) :=
  match (liveBatches r).2 with
  | none => .ok (liveBatches r).1
  | some e => .error e

theorem drained_eq (r : Reader) : drained r =
    match r.readBatch with
    | (.ok none, _) => .ok []
    | (.error e, _) => .error e
    | (.ok (some b), rest) => (drained rest).map ((if b.size != 0 then [b] else []) ++ ·) := by
  have hremaining := r.remaining_readBatch
  cases hbatch : r.readBatch with
  | mk found rest =>
      rw [hbatch] at hremaining
      cases hleft : r.remaining with
      | zero =>
          have hend := Reader.readBatch_of_remaining_eq_zero hleft
          rw [hbatch] at hend
          cases hend
          simp [drained, liveBatches, Reader.batches, hleft, Reader.batchesWithin]
      | succ n =>
          replace hremaining : rest.remaining = n := by
            rw [hleft] at hremaining
            exact hremaining
          rcases found with e | _ | b
          · simp [drained, liveBatches, Reader.batches, hleft, Reader.batchesWithin, hbatch]
          · simp [drained, liveBatches, Reader.batches, hleft, Reader.batchesWithin, hbatch]
          · simp only [drained, liveBatches, Reader.batches, hleft, hremaining,
              Reader.batchesWithin, hbatch]
            cases (rest.batchesWithin n).2 with
            | none => cases hsize : b.size != 0 <;> simp [hsize, Except.map]
            | some e => rfl

end Table

/-! ## Steps that leave what is kept as it is -/

namespace Scanning

variable {α β : Type} {kept : KeptIndexes} {f : α → Scanning β} {g : α → Except Error β}
  {xs : List α}

theorem run_mapM_of_still (h : ∀ x ∈ xs, (f x).run kept = (g x, kept)) :
    (xs.mapM f).run kept = (xs.mapM g, kept) := by
  induction xs with
  | nil => rfl
  | cons x xs ih =>
      have hx := h x (List.mem_cons_self ..)
      have hxs := ih fun y hy => h y (List.mem_cons_of_mem _ hy)
      rw [List.mapM_cons, List.mapM_cons]
      cases hgiven : g x with
      | error e =>
          rw [hgiven] at hx
          rw [run_bind_of_error hx]
          rfl
      | ok y =>
          rw [hgiven] at hx
          rw [run_bind_of_ok hx]
          cases hmore : xs.mapM g with
          | error e =>
              rw [hmore] at hxs
              rw [run_bind_of_error hxs]
              rfl
          | ok ys =>
              rw [hmore] at hxs
              rw [run_bind_of_ok hxs]
              rfl

theorem run_results_of_still (h : ∀ x ∈ xs, (f x).run kept = (g x, kept)) :
    (xs.mapM fun x => (f x).run).run kept = (xs.map g, kept) := by
  induction xs with
  | nil => rfl
  | cons x xs ih =>
      have hx : StateT.run (f x).run kept = (g x, kept) := h x (List.mem_cons_self ..)
      have hxs := ih fun y hy => h y (List.mem_cons_of_mem _ hy)
      rw [List.mapM_cons, StateT.run_bind, hx, List.map_cons]
      exact congrArg (fun p => (g x :: p.1, p.2)) hxs

end Scanning

namespace Table

variable {t u : Table} {schema : TableSchema} {fields : List Field} {task : ScanTask}
  {tasks : List ScanTask} {files : List DeleteFile} {kept : KeptIndexes} {workers : Int}

/-! ## Tasks alone -/

/-- The reader of a task when nothing is kept. -/
def readerAnew (t : Table) (schema : TableSchema) (fields : List Field) (task : ScanTask) :
    Except Error Reader := do
  let indexes ← task.deletes.mapM (·.load t.source schema)
  t.readerOver schema fields task.file indexes

/-- The batches of a task when nothing is kept. -/
def readAnew (t : Table) (schema : TableSchema) (fields : List Field) (task : ScanTask) :
    Except Error (List Batch) := do
  let reader ← t.readerAnew schema fields task
  drained reader

theorem readTask_run_none :
    (t.readTask schema fields task).run none = (t.readAnew schema fields task, none) := by
  have hloads : (t.loadIndexes schema task.deletes).run none =
      (task.deletes.mapM (·.load t.source schema), none) :=
    Scanning.run_mapM_of_still fun f _ => rfl
  have hreader : (t.taskReader schema fields task).run none =
      (t.readerAnew schema fields task, none) := by
    rw [taskReader, readerAnew]
    cases hindexes : task.deletes.mapM (·.load t.source schema) with
    | error e =>
        rw [hindexes] at hloads
        exact Scanning.run_bind_of_error hloads
    | ok indexes =>
        rw [hindexes] at hloads
        exact Scanning.run_bind_of_ok hloads
  rw [readTask, readAnew]
  cases hopened : t.readerAnew schema fields task with
  | error e =>
      rw [hopened] at hreader
      exact Scanning.run_bind_of_error hreader
  | ok reader =>
      rw [hopened] at hreader
      rw [Scanning.run_bind_of_ok hreader, ok_bind, drained]
      obtain ⟨bs, failure⟩ := liveBatches reader
      cases failure <;> rfl

theorem readAnew_congr (hlog : u.log = t.log) (hsource : u.source = t.source)
    (hchecks : u.checksBounds = t.checksBounds) :
    u.readAnew schema fields = t.readAnew schema fields := by
  funext task
  simp only [readAnew, readerAnew, readerOver, hlog, hsource, hchecks]

/-! ## Tasks one after another -/

/-- Files with the same key come in the same format. -/
def KeysFixFormats (files : List DeleteFile) : Prop :=
  ∀ f ∈ files, ∀ g ∈ files, f.cacheKey.key = g.cacheKey.key → f.format = g.format

/-- Files with the same key load alike. -/
theorem KeysFixFormats.load_eq (h : KeysFixFormats files) {f g : DeleteFile} (hf : f ∈ files)
    (hg : g ∈ files) (hkey : f.cacheKey.key = g.cacheKey.key) :
    f.load t.source schema = g.load t.source schema := by
  obtain ⟨hpath, hcontent, hids⟩ := DeleteFile.key_cacheKey_eq_iff.1 hkey
  have hformat := h f hf g hg hkey
  rw [DeleteFile.load, DeleteFile.load, hcontent, DeleteFile.loadPositions_congr hpath hformat]
  simp only [DeleteFile.loadEqualities, DeleteFile.keyFields, hpath, hids,
    DeleteFile.openFields_congr hpath hformat (Field.sameColumn_self _),
    DeleteFile.report_congr hpath, DeleteFile.addKeys_congr hpath]

/-- Where indexes are kept, there is room, and each of them was loaded with a schema from one of
some files, whose formats are fixed by their keys. -/
def Steady (t : Table) (schema : TableSchema) (files : List DeleteFile) (kept : KeptIndexes) :
    Prop :=
  ∀ c ∈ kept, KeysFixFormats files ∧
    Filled t.source (files.map fun f => (schema, f)) c

theorem Steady.knows {c : IndexCache DeleteIndex} (h : t.Steady schema files (some c))
    {f : DeleteFile} (hf : f ∈ files) :
    t.Knows (files.map fun f => (schema, f)) True (schema, f) := by
  refine ⟨List.mem_map_of_mem hf, fun _ p hp hkey i hload => ?_⟩
  obtain ⟨g, hg, rfl⟩ := List.mem_map.1 hp
  rw [← hload]
  exact (h c rfl).1.load_eq hf hg hkey.symm

/-- What a table that keeps indexes gives is what it gives when nothing is kept. -/
theorem Steady.run_readAll (h : t.Steady schema files kept)
    (hfiles : ∀ task ∈ tasks, ∀ f ∈ task.deletes, f ∈ files) :
    ((t.readAll schema fields tasks).run kept).1 =
      ((t.readAll schema fields tasks).run none).1 := by
  cases kept with
  | none => rfl
  | some c =>
      have hsimulates : Simulates (Filled t.source (files.map fun f => (schema, f))) True
          (t.readAll schema fields tasks).run (t.readAll schema fields tasks).run :=
        simulates_readAll ⟨rfl, rfl, rfl, rfl⟩
          fun task htask f hf => h.knows (hfiles task htask f hf)
      obtain ⟨a, d, b, hrun, -, hnone, hsame⟩ := hsimulates c (h c rfl).2
      change (t.readAll schema fields tasks).run (some c) = (a, some d) at hrun
      change (t.readAll schema fields tasks).run none = (b, none) at hnone
      rw [hrun, hnone]
      exact (hsame trivial).symm

theorem run_bind_flatten {x : Scanning (List (List Batch))} :
    ((x >>= fun read => pure read.flatten).run kept).1 = (x.run kept).1.map List.flatten := by
  obtain ⟨r, last, hx⟩ : ∃ r last, x.run kept = (r, last) := ⟨_, _, rfl⟩
  rw [hx]
  cases r with
  | error e =>
      rw [Scanning.run_bind_of_error hx]
      rfl
  | ok read =>
      rw [Scanning.run_bind_of_ok hx]
      rfl

theorem readAll_run (hworkers : t.parallelism = .ok workers) :
    ((t.readAll schema fields tasks).run kept).1 =
      (((if workers = 1 ∨ tasks.length ≤ 1 then tasks.mapM (t.readTask schema fields)
        else ExceptT.lift (tasks.mapM fun task => (t.readTask schema fields task).run) >>=
          fun results => ExceptT.mk (pure (results.mapM id))).run kept).1).map List.flatten := by
  rw [readAll, Scanning.run_bind_of_ok (Scanning.run_result_eq_ok_iff.2 ⟨hworkers, rfl⟩)]
  split
  · exact run_bind_flatten
  · rw [← bind_assoc]
    exact run_bind_flatten

theorem readAll_run_none (hworkers : t.parallelism = .ok workers) :
    ((t.readAll schema fields tasks).run none).1 =
      (tasks.mapM (t.readAnew schema fields)).map List.flatten := by
  have hread : ∀ task ∈ tasks, (t.readTask schema fields task).run none =
      (t.readAnew schema fields task, none) := fun task _ => readTask_run_none
  rw [readAll_run hworkers]
  split
  · rw [Scanning.run_mapM_of_still hread]
  · have hresults : (ExceptT.lift (tasks.mapM fun task => (t.readTask schema fields task).run) :
        Scanning _).run none = (.ok (tasks.map (t.readAnew schema fields)), none) :=
      Scanning.run_lift_eq_ok_iff.2 (Scanning.run_results_of_still hread)
    rw [Scanning.run_bind_of_ok hresults, mapM_id_map]
    rfl

/-- **Tasks that are read one after another give what each of them gives alone**, and the first
error in their order, if there is one. -/
theorem readAll_run_eq (hworkers : t.parallelism = .ok workers)
    (hsteady : t.Steady schema files kept)
    (hfiles : ∀ task ∈ tasks, ∀ f ∈ task.deletes, f ∈ files) :
    ((t.readAll schema fields tasks).run kept).1 =
      (tasks.mapM (t.readAnew schema fields)).map List.flatten :=
  (hsteady.run_readAll hfiles).trans (readAll_run_none hworkers)

end Table

end MergeOnRead
