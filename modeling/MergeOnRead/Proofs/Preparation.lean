import MergeOnRead.Proofs.MissingFields
import MergeOnRead.Proofs.ReadPaths

/-!
# Preparing a task

Before the data file of a task is opened, the task is prepared: its delete files are loaded, and a
filter is made of them (`Table.taskReader_eq`).  Nothing of this depends on what the source has to
say about other files (`Table.prepare_congr`), and what can go wrong is said by `Table.Unprepared`:
a delete file is not loaded, a key field is unknown, or a deleted position lies behind the end of
the data file.

What is prepared depends on the delete files even where their indexes come from a cache: an index
that is kept has the key fields of every file that it is handed out for
(`KeepsGiven.of_loadIndexes`).
-/

namespace MergeOnRead

/-! ## Steps that fail -/

namespace Scanning

variable {α β : Type} {kept mid last : KeptIndexes} {e : Error}

theorem run_bind_of_error {x : Scanning α} {next : α → Scanning β}
    (h : x.run kept = (.error e, last)) : (x >>= next).run kept = (.error e, last) := by
  change StateT.run x.run kept = _ at h
  change StateT.run (x >>= next).run kept = _
  rw [ExceptT.run_bind, StateT.run_bind, h]
  rfl

theorem run_bind_eq_error_iff {x : Scanning α} {next : α → Scanning β} :
    (x >>= next).run kept = (.error e, last) ↔
      x.run kept = (.error e, last) ∨
        ∃ a mid, x.run kept = (.ok a, mid) ∧ (next a).run mid = (.error e, last) := by
  rcases hx : x.run kept with ⟨r, mid⟩
  cases r with
  | error e' =>
      rw [run_bind_of_error hx]
      constructor
      · intro h
        cases h
        exact .inl rfl
      · rintro (h | ⟨a, mid', h, -⟩)
        · cases h
          rfl
        · cases h
  | ok a =>
      rw [run_bind_of_ok hx]
      constructor
      · exact fun h => .inr ⟨a, mid, rfl, h⟩
      · rintro (h | ⟨a', mid', h, hnext⟩)
        · cases h
        · cases h
          exact hnext

theorem run_result_eq_error_iff {r : Except Error α} :
    (ExceptT.mk (pure r) : Scanning α).run kept = (.error e, last) ↔
      r = .error e ∧ last = kept := by
  change (r, kept) = (.error e, last) ↔ _
  rw [Prod.mk.injEq, eq_comm (a := kept)]

/-- Steps that are taken one after the other fail with the first one that does. -/
theorem run_mapM_eq_error_iff {f : α → Scanning β} {xs : List α} :
    (xs.mapM f).run kept = (.error e, last) ↔
      ∃ before x after ys mid, xs = before ++ x :: after ∧ Runs f kept before ys mid ∧
        (f x).run mid = (.error e, last) := by
  induction xs generalizing kept with
  | nil =>
      constructor
      · exact fun h => by cases h
      · rintro ⟨before, x, after, ys, mid, h, -⟩
        simp at h
  | cons x xs ih =>
      simp only [List.mapM_cons, run_bind_eq_error_iff]
      constructor
      · rintro (hx | ⟨y, mid, hy, h | ⟨ys, mid', -, h⟩⟩)
        · exact ⟨[], x, xs, [], kept, rfl, .nil, hx⟩
        · obtain ⟨before, x', after, ys, mid', rfl, hruns, hx'⟩ := ih.1 h
          exact ⟨x :: before, x', after, y :: ys, mid', rfl, .cons hy hruns, hx'⟩
        · cases h
      · rintro ⟨before, x', after, ys, mid, h, hruns, hx'⟩
        cases hruns with
        | nil =>
            cases h
            exact .inl hx'
        | @cons _ mid' _ _ y before ys hy hruns =>
            obtain ⟨rfl, rfl⟩ := List.cons.inj h
            exact .inr ⟨y, mid', hy, .inl (ih.2 ⟨before, x', after, ys, mid, rfl, hruns, hx'⟩)⟩

end Scanning

/-! ## Loading through another source -/

/-- Two sources open a file alike, whichever columns are asked for. -/
def RowSource.OpensAlike (source source' : RowSource) (path format : String) : Prop :=
  ∀ columns, source' path format columns = source path format columns

theorem DeleteFile.load_congr {f : DeleteFile} {source source' : RowSource} {schema : TableSchema}
    (h : source.OpensAlike source' f.path f.format) :
    f.load source' schema = f.load source schema := by
  have hopen : f.openFields source' = f.openFields source := by
    funext fields
    rw [openFields, openFields, h]
  simp only [load, loadPositions, loadEqualities, hopen]

/-! ## Indexes that fit their files -/

/-- An index fits a file: it has the content of the file, and its key fields. -/
structure DeleteIndex.Fits (f : DeleteFile) (i : DeleteIndex) : Prop where
  fieldIds : i.fieldIds = f.fieldIds
  isPosition : i.isPosition = true ↔ f.content = .positionDeletes

namespace DeleteFile

variable {f g : DeleteFile} {source : RowSource} {schema : TableSchema} {i : DeleteIndex}

/-- The index of a file fits every file that it is kept for. -/
theorem fits_of_load (hcheck : f.check = .ok f) (hkey : g.cacheKey.key = f.cacheKey.key)
    (h : g.load source schema = .ok i) : i.Fits f := by
  obtain ⟨-, hcontent, hids⟩ := key_cacheKey_eq_iff.1 hkey
  unfold load at h
  rw [hcontent] at h
  unfold check at hcheck
  cases hf : f.content with
  | data => simp [hf] at hcheck
  | positionDeletes =>
      simp only [hf] at h hcheck
      obtain ⟨reader, -, h⟩ := bind_eq_ok_iff.1 h
      obtain ⟨pairs, -, h⟩ := bind_eq_ok_iff.1 h
      cases h
      split at hcheck
      · rename_i hnone
        exact ⟨(List.isEmpty_iff.1 hnone).symm, by simp [DeleteIndex.isPosition, hf]⟩
      · cases hcheck
  | equalityDeletes =>
      simp only [hf] at h
      obtain ⟨fields, -, h⟩ := bind_eq_ok_iff.1 h
      obtain ⟨reader, -, h⟩ := bind_eq_ok_iff.1 h
      obtain ⟨keys, -, h⟩ := bind_eq_ok_iff.1 h
      split at h
      · cases h
      · cases h
        exact ⟨hids, by simp [DeleteIndex.isPosition, hf]⟩

end DeleteFile

/-! ## Preparing a task -/

/-- What a data file is opened with: the fields that are read, and its filter. -/
structure Scan.Prepared where
  all : List Field
  filter : DeleteFilter

namespace Table

variable {t u : Table} {schema : TableSchema} {fields : List Field} {file : DataFile}
  {task : ScanTask} {tasks : List ScanTask} {kept mid last : KeptIndexes} {e : Error}
  {indexes : List DeleteIndex} {fs : List DeleteFile} {f : DeleteFile} {i : DeleteIndex}

/-- Makes the filter of a data file whose delete files are loaded. -/
def prepareWith (t : Table) (schema : TableSchema) (fields : List Field) (file : DataFile)
    (indexes : List DeleteIndex) : Except Error Scan.Prepared := do
  let all ← Scan.readFields schema file.path fields (indexes.flatMap (·.fieldIds))
  let checkBounds ← t.checksBounds
  let filter ← DeleteFilter.create file indexes all checkBounds
  .ok ⟨all, filter⟩

/-- Loads the delete files of a task, and makes its filter. -/
def prepare (t : Table) (schema : TableSchema) (fields : List Field) (task : ScanTask) :
    Scanning Scan.Prepared := do
  let indexes ← t.loadIndexes schema task.deletes
  ExceptT.mk (pure (t.prepareWith schema fields task.file indexes))

/-- Opens a data file. -/
def openPrepared (t : Table) (fields : List Field) (file : DataFile) (p : Scan.Prepared) :
    Except Error Reader := do
  let fileSchema ← t.log.schemaById file.schemaId
  let reader ← Scan.dataReader t.source file fileSchema p.all
  .ok (Scan.keepLeading fields.length p.all.length (Scan.dropDeleted p.filter reader))

theorem readerOver_eq : t.readerOver schema fields file indexes =
    (t.prepareWith schema fields file indexes >>= t.openPrepared fields file) := by
  rw [readerOver, prepareWith]
  cases Scan.readFields schema file.path fields (indexes.flatMap (·.fieldIds)) with
  | error e => rfl
  | ok all =>
      cases hcheck : t.checksBounds with
      | error e => rfl
      | ok check =>
          simp only [ok_bind]
          cases DeleteFilter.create file indexes all check <;> rfl

/-- A task is prepared first, and then its data file is opened. -/
theorem taskReader_eq : t.taskReader schema fields task =
    (t.prepare schema fields task >>= fun p =>
      ExceptT.mk (pure (t.openPrepared fields task.file p))) := by
  rw [taskReader, prepare, bind_assoc]
  refine congrArg (t.loadIndexes schema task.deletes >>= ·) (funext fun indexes => ?_)
  rw [readerOver_eq]
  cases t.prepareWith schema fields task.file indexes <;> rfl

/-- Preparing a task asks the source for its delete files only. -/
theorem prepare_congr (hcheck : u.checksBounds = t.checksBounds)
    (hopen : ∀ f ∈ task.deletes, t.source.OpensAlike u.source f.path f.format) :
    u.prepare schema fields task = t.prepare schema fields task := by
  have hloads : u.loadIndexes schema task.deletes = t.loadIndexes schema task.deletes := by
    rw [loadIndexes, loadIndexes]
    generalize task.deletes = fs at hopen
    induction fs with
    | nil => rfl
    | cons f fs ih =>
        have hload : u.loadIndex schema f = t.loadIndex schema f := by
          unfold loadIndex
          rw [DeleteFile.load_congr (hopen f (List.mem_cons_self ..))]
        rw [List.mapM_cons, List.mapM_cons, hload,
          ih fun g hg => hopen g (List.mem_cons_of_mem _ hg)]
  have hmade : u.prepareWith schema fields task.file = t.prepareWith schema fields task.file := by
    funext indexes
    rw [prepareWith, prepareWith, hcheck]
  rw [prepare, prepare, hloads, hmade]

/-- Opening a data file asks the source for this file only. -/
theorem openPrepared_congr (hlog : u.log = t.log)
    (hopen : t.source.OpensAlike u.source file.path file.format) :
    u.openPrepared fields file = t.openPrepared fields file := by
  funext p
  rw [openPrepared, openPrepared, hlog]
  simp only [Scan.dataReader, hopen _]

/-! ## What can go wrong -/

/-- A task cannot be prepared, from what is kept before to what is kept behind. -/
inductive Unprepared (t : Table) (schema : TableSchema) (fields : List Field) (task : ScanTask) :
    KeptIndexes → Error → KeptIndexes → Prop where
  /-- A delete file cannot be loaded. -/
  | load {kept mid last : KeptIndexes} {before after : List DeleteFile} {f : DeleteFile}
      {indexes : List DeleteIndex} {e : Error} :
      task.deletes = before ++ f :: after →
        Scanning.Runs (t.loadIndex schema) kept before indexes mid →
          (t.loadIndex schema f).run mid = (.error e, last) →
            Unprepared t schema fields task kept e last
  /-- A key field is neither read nor in the schema. -/
  | key {kept last : KeptIndexes} {indexes : List DeleteIndex} {e : Error} :
      (t.loadIndexes schema task.deletes).run kept = (.ok indexes, last) →
        Scan.readFields schema task.file.path fields (indexes.flatMap (·.fieldIds)) = .error e →
          Unprepared t schema fields task kept e last
  /-- It is not known whether positions are to be checked. -/
  | option {kept last : KeptIndexes} {indexes : List DeleteIndex} {all : List Field} {e : Error} :
      (t.loadIndexes schema task.deletes).run kept = (.ok indexes, last) →
        Scan.readFields schema task.file.path fields (indexes.flatMap (·.fieldIds)) = .ok all →
          t.checksBounds = .error e → Unprepared t schema fields task kept e last
  /-- Positions are checked, and the last one that is deleted lies behind the end of the file. -/
  | range {kept last : KeptIndexes} {indexes : List DeleteIndex} {all : List Field} {p : Nat} :
      (t.loadIndexes schema task.deletes).run kept = (.ok indexes, last) →
        Scan.readFields schema task.file.path fields (indexes.flatMap (·.fieldIds)) = .ok all →
          t.checksBounds = .ok true →
            IsGreatest {p | DeleteIndex.ListsAt indexes task.file.path p} (p : Int) →
              task.file.rowCount ≤ p →
                Unprepared t schema fields task kept
                  (.scan (.deleteOutOfRange (some p) task.file.rowCount) (some task.file.path)) last

/-- With bounds checked, only a position behind the end of a file keeps its filter from being made:
all key fields are read. -/
theorem prepareWith_eq_error_iff :
    t.prepareWith schema fields file indexes = .error e ↔
      Scan.readFields schema file.path fields (indexes.flatMap (·.fieldIds)) = .error e ∨
      ∃ all, Scan.readFields schema file.path fields (indexes.flatMap (·.fieldIds)) = .ok all ∧
        (t.checksBounds = .error e ∨ t.checksBounds = .ok true ∧ ∃ p : Nat,
          IsGreatest {p | DeleteIndex.ListsAt indexes file.path p} (p : Int) ∧
            file.rowCount ≤ p ∧
              e = .scan (.deleteOutOfRange (some p) file.rowCount) (some file.path)) := by
  have hcreate : ∀ all check,
      Scan.readFields schema file.path fields (indexes.flatMap (·.fieldIds)) = .ok all →
        (DeleteFilter.create file indexes all check = .error e ↔ check = true ∧ ∃ p : Nat,
          IsGreatest {p | DeleteIndex.ListsAt indexes file.path p} (p : Int) ∧
            file.rowCount ≤ p ∧
              e = .scan (.deleteOutOfRange (some p) file.rowCount) (some file.path)) := by
    intro all check hall
    obtain ⟨-, -, hids⟩ := Scan.readFields_eq_ok hall
    have hread : DeleteIndex.firstUnread? indexes all = none :=
      DeleteIndex.firstUnread?_eq_none_iff.2 fun index hindex id hid =>
        hids id (List.mem_flatMap.2 ⟨index, hindex, hid⟩)
    constructor
    · intro h
      rcases DeleteFilter.create_cases file indexes all check with
        ⟨p, -, -, hrange⟩ | ⟨-, ⟨id, hid, -⟩ | ⟨-, f, hf⟩⟩
      · cases hrange.symm.trans h
        obtain ⟨hcheck, hgreatest, hend⟩ := DeleteFilter.create_eq_outOfRange_iff.1 hrange
        exact ⟨hcheck, p, hgreatest, hend, rfl⟩
      · rw [hread] at hid
        cases hid
      · rw [hf] at h
        cases h
    · rintro ⟨hcheck, p, hgreatest, hend, rfl⟩
      exact DeleteFilter.create_eq_outOfRange_iff.2 ⟨hcheck, hgreatest, hend⟩
  rw [prepareWith, bind_eq_error_iff]
  refine or_congr_right (exists_congr fun all => and_congr_right fun hall => ?_)
  rw [bind_eq_error_iff]
  refine or_congr_right ?_
  constructor
  · rintro ⟨check, hcheck, h⟩
    rcases bind_eq_error_iff.1 h with h | ⟨filter, -, h⟩
    · obtain ⟨rfl, hrange⟩ := (hcreate all check hall).1 h
      exact ⟨hcheck, hrange⟩
    · cases h
  · rintro ⟨hcheck, hrange⟩
    exact ⟨true, hcheck, bind_eq_error_iff.2 (.inl ((hcreate all true hall).2 ⟨rfl, hrange⟩))⟩

theorem prepare_run_eq_error_iff :
    (t.prepare schema fields task).run kept = (.error e, last) ↔
      t.Unprepared schema fields task kept e last := by
  rw [prepare, Scanning.run_bind_eq_error_iff, loadIndexes, Scanning.run_mapM_eq_error_iff]
  simp only [Scanning.run_result_eq_error_iff, prepareWith_eq_error_iff]
  constructor
  · rintro (⟨before, f, after, indexes, mid, hdeletes, hruns, hf⟩ | ⟨indexes, mid, hloads,
      hmade | ⟨all, hall, hcheck | ⟨hcheck, p, hgreatest, hend, rfl⟩⟩, rfl⟩)
    · exact .load hdeletes hruns hf
    · exact .key hloads hmade
    · exact .option hloads hall hcheck
    · exact .range hloads hall hcheck hgreatest hend
  · intro h
    cases h with
    | load hdeletes hruns hf => exact .inl ⟨_, _, _, _, _, hdeletes, hruns, hf⟩
    | key hloads hmade => exact .inr ⟨_, _, hloads, .inl hmade, rfl⟩
    | option hloads hall hcheck => exact .inr ⟨_, _, hloads, .inr ⟨_, hall, .inl hcheck⟩, rfl⟩
    | range hloads hall hcheck hgreatest hend =>
        exact .inr ⟨_, _, hloads,
          .inr ⟨_, hall, .inr ⟨hcheck, _, hgreatest, hend, rfl⟩⟩, rfl⟩

end Table

/-! ## Indexes that are kept -/

namespace KeepsGiven

variable {t : Table} {schema : TableSchema} {task : ScanTask} {tasks : List ScanTask}
  {kept last : KeptIndexes} {f : DeleteFile} {fs : List DeleteFile} {i : DeleteIndex}
  {is : List DeleteIndex} {lists : List (List DeleteIndex)} (h : KeepsGiven kept)
include h

/-- An index that was kept fits the file that it is handed out for. -/
theorem of_loadIndex (hcheck : f.check = .ok f)
    (hrun : (t.loadIndex schema f).run kept = (.ok i, last)) : i.Fits f ∧ KeepsGiven last := by
  obtain ⟨rfl, rfl, hload⟩ | ⟨c, d, rfl, rfl, hgives⟩ := Table.loadIndex_run_eq_ok_iff.1 hrun
  · exact ⟨DeleteFile.fits_of_load hcheck rfl hload, h⟩
  · constructor
    · rcases hgives.given_or_mem with hmem | hload
      · obtain ⟨g, source, schema', hkey, hload⟩ := h c rfl _ hmem
        exact DeleteFile.fits_of_load hcheck hkey hload
      · exact DeleteFile.fits_of_load hcheck rfl hload
    · rintro _ ⟨⟩ e he
      rcases hgives.entries e he with he | ⟨hload, hkey⟩
      · exact h c rfl e he
      · exact ⟨f, t.source, schema, hkey.symm, hload⟩

theorem of_loadIndexes (hcheck : ∀ f ∈ fs, f.check = .ok f)
    (hrun : (t.loadIndexes schema fs).run kept = (.ok is, last)) :
    List.Forall₂ (fun f i => i.Fits f) fs is ∧ KeepsGiven last := by
  rw [Table.loadIndexes, Scanning.run_mapM_eq_ok_iff] at hrun
  induction hrun with
  | nil => exact ⟨.nil, h⟩
  | cons hfirst hrest ih =>
      obtain ⟨hfits, hmid⟩ := h.of_loadIndex (hcheck _ (List.mem_cons_self ..)) hfirst
      obtain ⟨hmore, hlast⟩ := ih hmid fun f hf => hcheck f (List.mem_cons_of_mem _ hf)
      exact ⟨.cons hfits hmore, hlast⟩

end KeepsGiven

end MergeOnRead
