import MergeOnRead.Proofs.RepeatedProjections

/-!
# Columns of files that keep types

A file that keeps the types of its columns is read column by column.  So a column that is asked for
more than once is handed out as often (`FileTree.rowSource_repeats`), next to the others, in batches
of the same rows.  In a table of such files it depends on the columns alone whether they may be
repeated (`Table.tellsApart_iff`).

Strategy:

* `RowFile.picks_typedStream`: columns that are picked from others are the same batch by batch;
* `Dataset.select_repeated`: the columns of some names are picked from those of the names without
  repetitions, so that the streams of a dataset correspond (`Dataset.exists_stream`);
* `FileTree.exists_openTyped`: both streams are opened from the same files, since a file has the
  names exactly when it has them without repetitions.
-/

namespace MergeOnRead

/-- A batch has some columns, and another one those at some places. -/
def BatchStream.Picks (header : List ColumnHeader) (places : List Nat)
    (r r' : Except Error Batch) : Prop :=
  ∀ b, r = .ok b → b.header = header ∧ r' = .ok (b.picked places)

namespace RowFile

variable {f : RowFile} {header : List ColumnHeader} {places : List Nat} {b : Batch}

/-- Columns that are picked from others have the same values. -/
theorem picks_typedBatch (hplaces : ∀ p ∈ places, p < header.length)
    (rows behind : List (List Value)) :
    BatchStream.Picks header places (f.typedBatch header rows behind)
      (f.typedBatch (Batch.pick places header) rows behind) := by
  intro b h
  obtain ⟨columns, hcolumns, h⟩ := bind_eq_ok_iff.1 h
  cases h
  have hlength := length_of_mapM_eq_ok hcolumns
  rw [typedBatch, Batch.mapM_pick hcolumns hplaces, ok_bind]
  simp only [Batch.transpose_pick (hlength ▸ hplaces), Batch.picked, List.map_take, List.map_drop,
    and_self]

theorem picks_typedStream (hplaces : ∀ p ∈ places, p < header.length) (size : Nat) :
    List.Forall₂ (BatchStream.Picks header places) (f.typedStream header size)
      (f.typedStream (Batch.pick places header) size) := by
  rw [typedStream, typedStream]
  cases chunks size f.content.rows with
  | nil => exact .cons (picks_typedBatch hplaces [] []) .nil
  | cons first others =>
      refine .cons (picks_typedBatch hplaces first _) ?_
      rw [List.forall₂_map_left_iff, List.forall₂_map_right_iff]
      exact List.forall₂_same.2 fun rows _ => picks_typedBatch hplaces rows []

end RowFile

namespace Dataset

variable {d : Dataset} {names columns : List String} {opened : BatchStream} {batchSize : Int}

theorem exists_header {name : String} (hname : name ∈ d.names) :
    ∃ h, (d.header.find? fun h => h.name == name) = some h ∧ h.name = name := by
  obtain ⟨h, hh, hname'⟩ := List.mem_map.1 hname
  have hsome : (d.header.find? fun h => h.name == name).isSome :=
    List.find?_isSome.2 ⟨h, hh, beq_iff_eq.2 hname'⟩
  obtain ⟨found, hfound⟩ := Option.isSome_iff_exists.1 hsome
  exact ⟨found, hfound, by simpa using List.find?_some hfound⟩

/-- Columns that are there are found one by one. -/
theorem select_eq (hnames : names ⊆ d.names) :
    d.select names =
      names.map fun name => (d.header.find? fun h => h.name == name).getD default := by
  rw [select, ← List.filterMap_eq_map]
  refine List.filterMap_congr fun name hname => ?_
  obtain ⟨h, hfound, -⟩ := exists_header (hnames hname)
  rw [Function.comp_apply, hfound]
  rfl

theorem names_select (hnames : names ⊆ d.names) : (d.select names).map (·.name) = names := by
  rw [select_eq hnames, List.map_map]
  refine (List.map_congr_left fun name hname => ?_).trans (List.map_id names)
  obtain ⟨h, hfound, hname'⟩ := exists_header (hnames hname)
  rw [Function.comp_apply, hfound, Option.getD_some, id_eq, hname']

theorem select_repeated (hcolumns : columns ⊆ d.names) :
    d.select columns = Batch.pick (columns.map columns.eraseDups.idxOf)
      (d.select columns.eraseDups) := by
  have hmem : ∀ name ∈ columns, name ∈ columns.eraseDups := fun name => List.mem_eraseDups.2
  have herased : columns.eraseDups ⊆ d.names := fun name hname =>
    hcolumns (List.mem_eraseDups.1 hname)
  rw [select_eq hcolumns, select_eq herased, Batch.pick_map, Batch.pick_idxOf hmem]
  intro i hi
  obtain ⟨name, hname, rfl⟩ := List.mem_map.1 hi
  exact List.idxOf_lt_length_of_mem (hmem name hname)

/-- A dataset hands out repeated columns as often. -/
theorem exists_stream (hcolumns : columns ⊆ d.names)
    (h : d.stream columns.eraseDups batchSize = .ok opened) :
    ∃ opened', d.stream columns batchSize = .ok opened' ∧
      List.Forall₂ (BatchStream.Picks (d.select columns.eraseDups)
        (columns.map columns.eraseDups.idxOf)) opened opened' := by
  have herased : columns.eraseDups ⊆ d.names := fun name hname =>
    hcolumns (List.mem_eraseDups.1 hname)
  have hreserved : columns.eraseDups.any reservedNames.contains =
      columns.any reservedNames.contains := by
    rw [Bool.eq_iff_iff, List.any_eq_true, List.any_eq_true]
    simp only [List.mem_eraseDups]
  have hplaces : ∀ p ∈ columns.map columns.eraseDups.idxOf,
      p < (d.select columns.eraseDups).length := by
    intro p hp
    obtain ⟨name, hname, rfl⟩ := List.mem_map.1 hp
    rw [← List.length_map (·.name), names_select herased]
    exact List.idxOf_lt_length_of_mem (List.mem_eraseDups.2 hname)
  rw [Dataset.stream, hreserved] at h
  rw [Dataset.stream]
  split at h
  · cases h
  · rename_i hlimit
    rw [if_neg hlimit]
    split at h
    · cases h
    · rename_i hsize
      rw [if_neg hsize]
      split at h
      · -- A stream that fails at once fails for all columns.
        rename_i hheld
        cases h
        exact ⟨_, if_pos hheld, .cons (fun b hb => by cases hb) .nil⟩
      · rename_i hheld
        cases h
        refine ⟨_, if_neg hheld, forall₂_flatMap fun file _ => ?_⟩
        cases file.rowsIn d.format with
        | error e => exact .cons (fun b hb => by cases hb) .nil
        | ok f =>
            simp only [select_repeated hcolumns]
            exact f.picks_typedStream hplaces _

end Dataset

namespace FileTree

variable {t : FileTree} {batchSize : Int} {format path : String} {columns : List String}

/-- The files that a path leads to. -/
def filesAt (t : FileTree) (path : String) : Except Error (List StoredFile) := do
  match ← t.find (← Location.storePath path) with
  | .missing => .error (.scan .missingFile (some path))
  | .directory way => .ok (t.listing way)
  | .file f => .ok [f]

/-- Opens columns of files that are read one after the other. -/
def openFiles (batchSize : Int) (kind : FileFormat) (path : String) (names : List String)
    (files : List StoredFile) : Except Error BatchStream := do
  let d ← Dataset.ofFiles kind files
  demand d.names names kind.name path
  d.stream names batchSize

theorem openTyped_eq (kind : FileFormat) (names : List String) :
    t.openTyped batchSize kind path names =
      t.filesAt path >>= openFiles batchSize kind path names := by
  rw [openTyped, filesAt]
  cases Location.storePath path with
  | error e => rfl
  | ok way =>
      rw [ok_bind, ok_bind]
      cases t.find way with
      | error e => rfl
      | ok found => cases found <;> rfl

/-- A file that keeps types hands out repeated columns as often. -/
theorem exists_openTyped {kind : FileFormat} {opened : BatchStream}
    (h : t.openTyped batchSize kind path columns.eraseDups = .ok opened) :
    ∃ header opened', header.map (·.name) = columns.eraseDups ∧
      t.openTyped batchSize kind path columns = .ok opened' ∧
        List.Forall₂ (BatchStream.Picks header (columns.map columns.eraseDups.idxOf))
          opened opened' := by
  rw [openTyped_eq] at h
  obtain ⟨files, hfiles, h⟩ := bind_eq_ok_iff.1 h
  obtain ⟨d, hd, h⟩ := bind_eq_ok_iff.1 h
  obtain ⟨⟨⟩, hdemand, h⟩ := bind_eq_ok_iff.1 h
  have herased := demand_eq_ok_iff.1 hdemand
  have hcolumns : columns ⊆ d.names := fun name hname => herased (List.mem_eraseDups.2 hname)
  obtain ⟨opened', hopened', hpicks⟩ := Dataset.exists_stream hcolumns h
  refine ⟨d.select columns.eraseDups, opened', Dataset.names_select herased, ?_, hpicks⟩
  rw [openTyped_eq, hfiles, ok_bind, openFiles, hd, ok_bind, demand_eq_ok_iff.2 hcolumns, ok_bind,
    hopened']

theorem rowSource_eq_ok_iff {kind : FileFormat} (hformat : FileFormat.ofName? format = some kind)
    (hkind : kind ≠ .avro) {names : List String} {stream : BatchStream} :
    t.rowSource batchSize path format names = .ok stream ↔
      t.check path = .ok () ∧ ∃ opened, t.openTyped batchSize kind path names = .ok opened ∧
        stream = opened.map fun r => r.mapError (BatchStream.report path) := by
  have hopen : t.rowSource batchSize path format names = t.check path >>= fun _ =>
      (t.openTyped batchSize kind path names).mapError (reportOpening format path) >>= fun opened =>
        .ok (opened.map fun r => r.mapError (BatchStream.report path)) := by
    rw [rowSource, hformat]
    cases kind with
    | avro => exact absurd rfl hkind
    | parquet => rfl
    | orc => rfl
  rw [hopen]
  constructor
  · intro h
    obtain ⟨⟨⟩, hcheck, h⟩ := bind_eq_ok_iff.1 h
    obtain ⟨opened, hopened, h⟩ := bind_eq_ok_iff.1 h
    cases h
    exact ⟨hcheck, opened, mapError_eq_ok_iff.1 hopened, rfl⟩
  · rintro ⟨hcheck, opened, hopened, rfl⟩
    rw [hcheck, ok_bind, mapError_eq_ok_iff.2 hopened, ok_bind]

/-- **Files that keep types hand out repeated columns repeatedly.** -/
theorem rowSource_repeats {kind : FileFormat} (hformat : FileFormat.ofName? format = some kind)
    (hkind : kind ≠ .avro) : RowSource.Repeats (t.rowSource batchSize) path format columns := by
  intro stream h
  obtain ⟨hcheck, opened, hopened, rfl⟩ := (rowSource_eq_ok_iff hformat hkind).1 h
  obtain ⟨header, opened', hheader, hopened', hpicks⟩ := exists_openTyped hopened
  refine ⟨_, (rowSource_eq_ok_iff hformat hkind).2 ⟨hcheck, opened', hopened', rfl⟩, ?_⟩
  rw [List.forall₂_map_left_iff, List.forall₂_map_right_iff]
  refine hpicks.imp fun r r' hr b hb => ?_
  obtain ⟨hb', hr'⟩ := hr b (mapError_eq_ok_iff.1 hb)
  exact ⟨by rw [Batch.names, hb', hheader], mapError_eq_ok_iff.2 hr'⟩

end FileTree

/-- In a table of files that keep types, the last column that is opened may be repeated. -/
theorem Table.tellsApart_iff {t : Table} {tree : FileTree} {batchSize : Int} {kind : FileFormat}
    {schema : TableSchema} {fields : List Field} {file : DataFile} {indexes : List DeleteIndex}
    (hsource : t.source = tree.rowSource batchSize)
    (hformat : FileFormat.ofName? file.format = some kind) (hkind : kind ≠ .avro) :
    t.TellsApart schema fields file indexes ↔
      ∀ columns, t.columnsOpened schema fields file indexes = .ok columns →
        LastRepeated columns := by
  constructor
  · intro h columns hcolumns
    rcases h columns hcolumns with hnodup | ⟨hlast, -⟩
    · intro name hmore
      have := List.nodup_iff_count_le_one.1 hnodup name
      omega
    · exact hlast
  · intro h columns hcolumns
    refine .inr ⟨h columns hcolumns, ?_⟩
    rw [hsource]
    exact FileTree.rowSource_repeats hformat hkind

end MergeOnRead
