import MergeOnRead.Proofs.RepeatedProjections

/-!
# Reading tasks one after another

Tasks are read as rows, as batches, or as a whole, and all of this comes down to the same two steps
for each task: its indexes are loaded, and its reader is read to the end.

* `Table.readInOrder_run_eq_iff` and `Table.readAll_run_eq_ok_iff_batches`: tasks are read without
  an error when each of them is, whichever way;
* `Table.runs_readWith_iff`: what is read of them depends on the indexes that are loaded for them
  (`Table.Yields`), which are the same whichever way they are read (`Scanning.Runs.unique`).
-/

namespace MergeOnRead

/-- Steps that are taken from the same state lead to the same results. -/
theorem Scanning.Runs.unique {α β : Type} {f : α → Scanning β} {kept last last' : KeptIndexes}
    {xs : List α} {ys ys' : List β} (h : Runs f kept xs ys last) (h' : Runs f kept xs ys' last') :
    ys = ys' ∧ last = last' := by
  induction h generalizing ys' with
  | nil =>
      cases h'
      exact ⟨rfl, rfl⟩
  | cons hfirst hrest ih =>
      cases h' with
      | cons hfirst' hrest' =>
          cases hfirst.symm.trans hfirst'
          obtain ⟨rfl, rfl⟩ := ih hrest'
          exact ⟨rfl, rfl⟩

theorem Scanning.exists_run_eq_ok {α : Type} {x : Scanning α} {kept : KeptIndexes}
    (h : (x.run kept).1.toOption.isSome = true) : ∃ a last, x.run kept = (.ok a, last) := by
  obtain ⟨a, ha⟩ := exists_eq_ok_of_isSome h
  exact ⟨a, _, Prod.ext ha rfl⟩

namespace Table

variable {α : Type} {t : Table} {schema : TableSchema} {fields : List Field} {task : ScanTask}
  {tasks : List ScanTask} {kept last : KeptIndexes} {read : Reader → List α × Option Error}
  {items : List α}

/-! ## Tasks one after another -/

/-- What is read of a task, if it does not fail. -/
def readWith (t : Table) (schema : TableSchema) (fields : List Field)
    (read : Reader → List α × Option Error) (task : ScanTask) : Scanning (List α) := do
  let reader ← t.taskReader schema fields task
  ExceptT.mk (pure (match read reader with
    | (items, none) => .ok items
    | (_, some e) => .error e))

theorem readTask_eq : t.readTask schema fields = t.readWith schema fields liveBatches := by
  funext task
  refine congrArg (t.taskReader schema fields task >>= ·) (funext fun reader => ?_)
  obtain ⟨bs, failure⟩ := liveBatches reader
  cases failure <;> rfl

theorem taskReader_run_eq_ok_iff {reader : Reader} :
    (t.taskReader schema fields task).run kept = (.ok reader, last) ↔
      ∃ indexes, (t.loadIndexes schema task.deletes).run kept = (.ok indexes, last) ∧
        t.readerOver schema fields task.file indexes = .ok reader := by
  rw [taskReader, Scanning.run_bind_eq_ok_iff]
  constructor
  · rintro ⟨indexes, mid, hindexes, h⟩
    obtain ⟨hreader, rfl⟩ := Scanning.run_result_eq_ok_iff.1 h
    exact ⟨indexes, hindexes, hreader⟩
  · rintro ⟨indexes, hindexes, hreader⟩
    exact ⟨indexes, last, hindexes, Scanning.run_result_eq_ok_iff.2 ⟨hreader, rfl⟩⟩

theorem readWith_run_eq_ok_iff :
    (t.readWith schema fields read task).run kept = (.ok items, last) ↔
      ∃ reader, (t.taskReader schema fields task).run kept = (.ok reader, last) ∧
        read reader = (items, none) := by
  have hread : ∀ reader, (match read reader with
      | (items, none) => Except.ok items
      | (_, some e) => .error e) = .ok items ↔ read reader = (items, none) := by
    intro reader
    obtain ⟨found, failure⟩ := read reader
    cases failure <;> simp
  simp only [readWith, Scanning.run_bind_eq_ok_iff, Scanning.run_result_eq_ok_iff, hread]
  constructor
  · rintro ⟨reader, mid, hreader, hitems, rfl⟩
    exact ⟨reader, hreader, hitems⟩
  · rintro ⟨reader, hreader, hitems⟩
    exact ⟨reader, last, hreader, hitems, rfl⟩

theorem readInOrder_cons_run :
    (t.readInOrder schema fields read (task :: tasks)).run kept =
      match (t.taskReader schema fields task).run kept with
      | (.error e, mid) => (([], some e), mid)
      | (.ok reader, mid) =>
        match read reader with
        | (items, some e) => ((items, some e), mid)
        | (items, none) =>
          match (t.readInOrder schema fields read tasks).run mid with
          | ((more, failure), last) => ((items ++ more, failure), last) := by
  rw [readInOrder, StateT.run_bind]
  obtain ⟨r, mid, hreader⟩ : ∃ r mid, (t.taskReader schema fields task).run kept = (r, mid) :=
    ⟨_, _, rfl⟩
  have hrun : StateT.run (t.taskReader schema fields task).run kept = (r, mid) := hreader
  rw [hrun, hreader]
  cases r with
  | error e => rfl
  | ok reader =>
      cases hread : read reader with
      | mk found failure =>
          change StateT.run (_ : StateM KeptIndexes _) mid = _
          simp only [hread]
          cases failure <;> rfl

theorem exists_readInOrder_run
    (h : ((t.readInOrder schema fields read tasks).run kept).1.2 = none) :
    ∃ items last, (t.readInOrder schema fields read tasks).run kept = ((items, none), last) :=
  ⟨_, _, Prod.ext (Prod.ext rfl h) rfl⟩

/-- Tasks are read in order when each of them is read. -/
theorem readInOrder_run_eq_iff :
    (t.readInOrder schema fields read tasks).run kept = ((items, none), last) ↔
      ∃ parts, Scanning.Runs (t.readWith schema fields read) kept tasks parts last ∧
        items = parts.flatten := by
  induction tasks generalizing kept items with
  | nil =>
      constructor
      · intro h
        cases h
        exact ⟨[], .nil, rfl⟩
      · rintro ⟨parts, h, rfl⟩
        cases h
        rfl
  | cons task tasks ih =>
      rw [readInOrder_cons_run]
      constructor
      · intro h
        split at h
        · cases h
        · rename_i reader mid hreader
          split at h
          · cases h
          · rename_i part hpart
            split at h
            rename_i more failure last' hmore
            cases h
            obtain ⟨parts, hparts, rfl⟩ := ih.1 hmore
            exact ⟨part :: parts, .cons (readWith_run_eq_ok_iff.2 ⟨reader, hreader, hpart⟩) hparts,
              rfl⟩
      · rintro ⟨parts, h, rfl⟩
        cases h with
        | cons hfirst hrest =>
            obtain ⟨reader, hreader, hpart⟩ := readWith_run_eq_ok_iff.1 hfirst
            simp only [hreader, hpart, ih.2 ⟨_, hrest, rfl⟩, List.flatten_cons]

/-- The tables of all tasks are read as their batches are, with any number of workers. -/
theorem readAll_run_eq_ok_iff_batches {bs : List Batch} :
    (t.readAll schema fields tasks).run kept = (.ok bs, last) ↔
      (∃ workers, t.parallelism = .ok workers) ∧
        (t.batches schema fields tasks).run kept = ((bs, none), last) := by
  rw [readAll_run_eq_ok_iff, batches, readInOrder_run_eq_iff, ← readTask_eq]
  constructor
  · rintro ⟨workers, read, hworkers, hread, rfl⟩
    exact ⟨⟨workers, hworkers⟩, read, hread, rfl⟩
  · rintro ⟨⟨workers, hworkers⟩, read, hread, rfl⟩
    exact ⟨workers, read, hworkers, hread, rfl⟩

theorem liveBatches_eq_ok_iff {reader : Reader} {bs : List Batch} :
    liveBatches reader = (bs, none) ↔
      ∃ ds, reader.batches = (ds, none) ∧ bs = ds.filter fun b => b.size != 0 := by
  rw [liveBatches]
  obtain ⟨ds, failure⟩ := reader.batches
  simp only [Prod.mk.injEq]
  constructor
  · rintro ⟨rfl, rfl⟩
    exact ⟨ds, ⟨rfl, rfl⟩, rfl⟩
  · rintro ⟨_, ⟨rfl, rfl⟩, rfl⟩
    exact ⟨rfl, rfl⟩

/-- What some indexes leave of a task is read. -/
def Yields (t : Table) (schema : TableSchema) (fields : List Field)
    (read : Reader → List α × Option Error) (job : ScanTask × List DeleteIndex)
    (items : List α) : Prop :=
  ∃ reader, t.readerOver schema fields job.1.file job.2 = .ok reader ∧ read reader = (items, none)

/-- Tasks are read with the indexes that are loaded for them. -/
theorem runs_readWith_iff {parts : List (List α)} :
    Scanning.Runs (t.readWith schema fields read) kept tasks parts last ↔
      ∃ lists, Scanning.Runs (fun task => t.loadIndexes schema task.deletes) kept tasks lists last ∧
        List.Forall₂ (t.Yields schema fields read) (tasks.zip lists) parts := by
  constructor
  · intro h
    induction h with
    | nil => exact ⟨[], .nil, .nil⟩
    | cons hfirst hrest ih =>
        obtain ⟨reader, hreader, hpart⟩ := readWith_run_eq_ok_iff.1 hfirst
        obtain ⟨indexes, hindexes, hover⟩ := taskReader_run_eq_ok_iff.1 hreader
        obtain ⟨lists, hlists, hparts⟩ := ih
        exact ⟨indexes :: lists, .cons hindexes hlists, .cons ⟨reader, hover, hpart⟩ hparts⟩
  · rintro ⟨lists, hlists, hparts⟩
    induction hlists generalizing parts with
    | nil =>
        cases hparts
        exact .nil
    | cons hindexes hrest ih =>
        cases hparts with
        | cons hpart hparts =>
            obtain ⟨reader, hover, hread⟩ := hpart
            refine .cons (readWith_run_eq_ok_iff.2 ⟨reader, ?_, hread⟩) (ih hparts)
            exact taskReader_run_eq_ok_iff.2 ⟨_, hindexes, hover⟩

end Table

end MergeOnRead
