import MergeOnRead.Proofs.TypedFiles

/-!
# The rows of the files of a tree

A tree hands out its files in batches of any size, and whichever columns are opened: the rows are
the same ones, in the same order (`FileTree.stores_rowSource`).  A file that keeps the types of its
columns holds rows that do not depend on the size of the batches at all.  The columns of records get
the types that are found from the values of one batch, so these do depend on it.

Strategy:

* `RowFile.holds_of_typedBatch` and `RecordFile.holds_of_batch`: a batch holds the rows of the piece
  that it is made of;
* `StoredRows.Delivers.append`: what is delivered piece after piece, or file after file, is
  delivered as a whole.
-/

namespace MergeOnRead

/-! ## Rows behind rows -/

namespace StoredRows

variable {s t : StoredRows} {names : List String} {position : Nat} {b : Batch}
  {stream rest : BatchStream}

/-- No rows. -/
def none : StoredRows := ⟨0, fun _ _ => default, fun _ _ => .null⟩

/-- The rows of one file behind those of another one. -/
def append (s t : StoredRows) : StoredRows where
  count := s.count + t.count
  type p := if p < s.count then s.type p else t.type (p - s.count)
  value p := if p < s.count then s.value p else t.value (p - s.count)

theorem Holds.append_left (h : s.Holds names position b) (hend : position + b.size ≤ s.count) :
    (s.append t).Holds names position b where
  names := h.names
  types i hi := by
    rw [h.types i hi]
    simp [append, show position + i < s.count by omega]
  rows i hi := by
    rw [h.rows i hi]
    simp [append, show position + i < s.count by omega]

theorem Holds.append_right (h : t.Holds names position b) :
    (s.append t).Holds names (s.count + position) b where
  names := h.names
  types i hi := by
    rw [h.types i hi]
    simp [append, show ¬s.count + position + i < s.count by omega,
      show s.count + position + i - s.count = position + i by omega]
  rows i hi := by
    rw [h.rows i hi]
    simp [append, show ¬s.count + position + i < s.count by omega,
      show s.count + position + i - s.count = position + i by omega]

theorem Delivers.append_right (h : t.Delivers names position stream) :
    (s.append t).Delivers names (s.count + position) stream := by
  induction h with
  | done => exact .done
  | more hb hrest ih => exact .more hb.append_right (by rwa [Nat.add_assoc])

/-- Streams are delivered one behind the other. -/
theorem Delivers.append (h : s.Delivers names position stream) (ht : t.Delivers names 0 rest) :
    (s.append t).Delivers names position (stream ++ rest) := by
  induction h with
  | done => exact ht.append_right
  | more hb hrest ih => exact .more (hb.append_left hrest.le_count) ih

end StoredRows

/-! ## Files that keep types -/

namespace RowFile

variable {f : RowFile} {header : List ColumnHeader} {wanted : ColumnHeader} {b : Batch}
  {rows behind : List (List Value)} {column : List Value}

/-- The value that a row of a file has in a column, in the type that is wanted; null where the file
does not have the column. -/
def valueIn (f : RowFile) (wanted : ColumnHeader) (row : List Value) : Value :=
  match f.placesOf wanted.name with
  | [place] =>
    (f.restoredHeader.getD place default).type.convert wanted.type (row.getD place .null)
  | _ => .null

theorem columnOf_eq_ok
    (h : f.columnOf { header := f.restoredHeader, rows, behind } wanted = .ok column) {i : Nat}
    (hi : i < rows.length) : column.getD i .null = f.valueIn wanted (rows.getD i []) := by
  rw [columnOf] at h
  rw [valueIn]
  split at h
  · rename_i hplaces
    cases h
    simp [hplaces, List.getD_eq_getElem?_getD, hi]
  · rename_i place hplaces
    simp only at h
    split at h
    · have hconverted := Batch.convertHeld_eq_ok h hi
      simp only [hplaces, ColumnType.convert, hconverted]
    · cases h
  · cases h

theorem typedBatch_eq_ok (h : f.typedBatch header rows behind = .ok b) :
    b.header = header ∧ b.size = rows.length ∧
      ∀ i < rows.length, b.rows.getD i [] =
        header.map fun wanted => f.valueIn wanted (rows.getD i []) := by
  obtain ⟨columns, hcolumns, h⟩ := bind_eq_ok_iff.1 h
  cases h
  refine ⟨rfl, by simp [Batch.size], fun i hi => ?_⟩
  have hi' : i < (Batch.transpose (rows.length + behind.length) columns).length := by
    rw [Batch.length_transpose]
    omega
  have hrow : ((Batch.transpose (rows.length + behind.length) columns).take rows.length).getD i [] =
      columns.map fun column => column.getD i .null := by
    rw [List.getD_eq_getElem?_getD, List.getElem?_take_of_lt hi, List.getElem?_eq_getElem hi',
      Option.getD_some, Batch.getElem_transpose hi']
  rw [hrow]
  have hforall := mapM_eq_ok_iff.1 hcolumns
  clear h hcolumns hrow hi'
  induction hforall with
  | nil => rfl
  | cons hcolumn hrest ih => rw [List.map_cons, List.map_cons, columnOf_eq_ok hcolumn hi, ih]

/-- The rows of a file, with columns of some names in the types that are wanted. -/
def stored (f : RowFile) (wanted : String → ColumnHeader) : StoredRows where
  count := f.content.rows.length
  type _ name := (wanted name).type
  value p name := f.valueIn (wanted name) (f.content.rows.getD p [])

variable {wanted : String → ColumnHeader} {names : List String} {position : Nat}

/-- A batch of a file holds the rows that it is made of. -/
theorem holds_of_typedBatch (hnames : ∀ name ∈ names, (wanted name).name = name)
    (hrows : ∀ i < rows.length, rows.getD i [] = f.content.rows.getD (position + i) [])
    (h : f.typedBatch (names.map wanted) rows behind = .ok b) :
    (f.stored wanted).Holds names position b ∧ b.size = rows.length := by
  obtain ⟨hheader, hsize, hvalues⟩ := typedBatch_eq_ok h
  refine ⟨⟨?_, fun i hi => ?_, fun i hi => ?_⟩, hsize⟩
  · rw [Batch.names, hheader, List.map_map]
    exact (List.map_congr_left hnames).trans (List.map_id names)
  · rw [hheader]
    refine List.map_congr_left fun name hname => ?_
    rw [show wanted name = ⟨(wanted name).name, (wanted name).type⟩ from rfl, hnames name hname]
    rfl
  · rw [hsize] at hi
    rw [hvalues i hi, List.map_map, hrows i hi]
    rfl

/-- Pieces of a file are delivered one behind the other. -/
theorem delivers_pieces (hnames : ∀ name ∈ names, (wanted name).name = name)
    {pieces : List (List (List Value) × List (List Value))}
    (hpieces : (pieces.map (·.1)).flatten = f.content.rows.drop position)
    (hposition : position ≤ f.content.rows.length)
    (hok : ∀ r ∈ pieces.map fun p => f.typedBatch (names.map wanted) p.1 p.2, ∃ b, r = .ok b) :
    (f.stored wanted).Delivers names position
      (pieces.map fun p => f.typedBatch (names.map wanted) p.1 p.2) := by
  induction pieces generalizing position with
  | nil =>
      have hend : f.content.rows.length ≤ position := List.drop_eq_nil_iff.1 hpieces.symm
      obtain rfl : position = f.content.rows.length := by omega
      exact .done
  | cons p pieces ih =>
      obtain ⟨b, hb⟩ : ∃ b, f.typedBatch (names.map wanted) p.1 p.2 = .ok b :=
        hok _ (List.mem_cons_self ..)
      rw [List.map_cons, List.flatten_cons] at hpieces
      have hdrop : (f.content.rows.drop position).length = p.1.length +
          (pieces.map (·.1)).flatten.length := by
        rw [← hpieces, List.length_append]
      rw [List.length_drop] at hdrop
      have hrows : ∀ i < p.1.length, p.1.getD i [] = f.content.rows.getD (position + i) [] := by
        intro i hi
        rw [List.getD_eq_getElem?_getD, List.getD_eq_getElem?_getD, ← List.getElem?_drop,
          ← hpieces, List.getElem?_append_left hi]
      have hrest : (pieces.map (·.1)).flatten = f.content.rows.drop (position + p.1.length) := by
        rw [← List.drop_drop, ← hpieces, List.drop_left]
      obtain ⟨hholds, hsize⟩ := f.holds_of_typedBatch hnames hrows hb
      rw [List.map_cons, hb]
      refine .more hholds (hsize ▸ ih hrest (by omega) fun r hr => ?_)
      exact hok r (List.mem_cons_of_mem _ hr)

/-- A file that is read without an error delivers its rows. -/
theorem delivers_typedStream (hnames : ∀ name ∈ names, (wanted name).name = name) {size : Nat}
    (hok : ∀ r ∈ f.typedStream (names.map wanted) size, ∃ b, r = .ok b) :
    (f.stored wanted).Delivers names 0 (f.typedStream (names.map wanted) size) := by
  obtain ⟨pieces, hpieces, hstream⟩ : ∃ pieces : List (List (List Value) × List (List Value)),
      (pieces.map (·.1)).flatten = f.content.rows ∧
        f.typedStream (names.map wanted) size =
          pieces.map fun p => f.typedBatch (names.map wanted) p.1 p.2 := by
    have hall := flatten_chunks size f.content.rows
    rw [typedStream]
    cases hchunks : chunks size f.content.rows with
    | nil =>
        rw [hchunks] at hall
        exact ⟨[([], [])], by simpa using hall, rfl⟩
    | cons first others =>
        rw [hchunks] at hall
        refine ⟨(first, f.heldBehind others) :: others.map fun rows => (rows, []), ?_, ?_⟩
        · simpa [Function.comp_def] using hall
        · simp
  rw [hstream] at hok ⊢
  exact f.delivers_pieces hnames (by simpa using hpieces) (Nat.zero_le _) hok

end RowFile

/-! ## Files of records -/

namespace RecordFile

variable {f : RecordFile} {records : List (List Value)} {names : List String} {b : Batch}
  {size : Nat}

/-- What a record has in a field. -/
def fieldIn (f : RecordFile) (name : String) (record : List Value) : Value :=
  record.getD (f.placeOf name) .null

/-- The type that is found for a field of some records. -/
def typeIn (f : RecordFile) (records : List (List Value)) (name : String) : ColumnType :=
  (ColumnType.ofValues? (records.map (f.fieldIn name))).getD default

/-- The value of a record in a column. -/
def valueIn (f : RecordFile) (records : List (List Value)) (name : String) (record : List Value) :
    Value :=
  ((f.typeIn records name).take (f.fieldIn name record)).toOption.getD .null

/-- The rows of the records that come in one batch. -/
def storedPiece (f : RecordFile) (records : List (List Value)) : StoredRows where
  count := records.length
  type _ := f.typeIn records
  value p name := f.valueIn records name (records.getD p [])

/-- A field that is asked for once is not repeated. -/
theorem stutter_count {name : String} (hnames : names.Nodup) (hname : name ∈ names)
    (values : List Value) : stutter (names.count name) values = values := by
  rw [List.count_eq_one_of_mem hnames hname, stutter]
  exact List.flatMap_singleton' _

theorem column_eq_ok {name : String} {column : ColumnHeader × List Value} (hnames : names.Nodup)
    (hname : name ∈ names)
    (h : RecordFile.column name (stutter (names.count name) (records.map (f.fieldIn name))) =
      .ok column) : column = (⟨name, f.typeIn records name⟩, records.map (f.fieldIn name)) := by
  rw [stutter_count hnames hname, RecordFile.column] at h
  split at h
  · rename_i type htype
    cases h
    rw [typeIn, htype, Option.getD_some]
  · cases h

theorem batch_eq_ok (hnames : names.Nodup) (hne : names ≠ []) (h : f.batch names records = .ok b) :
    b.header = names.map (fun name => ⟨name, f.typeIn records name⟩) ∧
      b.rows = Batch.transpose records.length
        (names.map fun name => records.map (f.valueIn records name)) := by
  obtain ⟨columns, hcolumns, h⟩ := bind_eq_ok_iff.1 h
  rw [eraseDups_of_nodup hnames] at hcolumns
  obtain rfl := eq_map_of_mapM_eq_ok (fun name hname column => column_eq_ok hnames hname) hcolumns
  obtain ⟨values, hvalues, h⟩ := bind_eq_ok_iff.1 h
  rw [List.mapM_map] at hvalues
  have htaken : values = names.map fun name => records.map (f.valueIn records name) := by
    refine eq_map_of_mapM_eq_ok (fun name _ taken htaken => ?_) hvalues
    simp only [Function.comp_apply, List.mapM_map] at htaken
    refine eq_map_of_mapM_eq_ok (fun record _ v hv => ?_) htaken
    rw [Function.comp_apply] at hv
    rw [valueIn, hv]
    rfl
  have hcount : (values.headD []).length = records.length := by
    rw [htaken]
    cases names with
    | nil => exact absurd rfl hne
    | cons name names => exact List.length_map ..
  simp only at h
  split at h
  · cases h
    rw [hcount, htaken, List.map_map]
    exact ⟨rfl, rfl⟩
  · cases h

/-- A batch of different fields holds the records that it is made of. -/
theorem holds_of_batch (hnames : names.Nodup) (hne : names ≠ [])
    (h : f.batch names records = .ok b) :
    (f.storedPiece records).Holds names 0 b ∧ b.size = records.length := by
  obtain ⟨hheader, hrows⟩ := batch_eq_ok hnames hne h
  have hsize : b.size = records.length := by rw [Batch.size, hrows, Batch.length_transpose]
  refine ⟨⟨?_, fun i _ => hheader, fun i hi => ?_⟩, hsize⟩
  · rw [Batch.names, hheader, List.map_map]
    exact List.map_id names
  · rw [hsize] at hi
    rw [hrows, List.getD_eq_getElem _ _ (by rwa [Batch.length_transpose]), Batch.getElem_transpose,
      List.map_map, Nat.zero_add]
    refine List.map_congr_left fun name _ => ?_
    simp [storedPiece, List.getD_eq_getElem?_getD, hi]

/-- The records of a file, when some number of them come in one batch. -/
def stored (f : RecordFile) (size : Nat) : StoredRows :=
  (chunks (max 1 size) f.records).foldr (fun records rest => (f.storedPiece records).append rest)
    .none

/-- Records that are read without an error are delivered. -/
theorem delivers_stream (hnames : names.Nodup) (hne : names ≠ [])
    (hok : ∀ r ∈ f.stream size names, ∃ b, r = .ok b) :
    (f.stored size).Delivers names 0 (f.stream size names) := by
  rw [stream] at hok ⊢
  cases hfailure : f.failure with
  | some e =>
      simp only [hfailure] at hok
      obtain ⟨b, hb⟩ := hok _ (List.mem_append_right _ (List.mem_singleton_self _))
      cases hb
  | none =>
      simp only [hfailure, stored] at hok ⊢
      generalize chunks (max 1 size) f.records = pieces at hok ⊢
      induction pieces with
      | nil => exact .done
      | cons records pieces ih =>
          obtain ⟨b, hb⟩ : ∃ b, f.batch names records = .ok b := hok _ (List.mem_cons_self ..)
          obtain ⟨hholds, hsize⟩ := holds_of_batch hnames hne hb
          have hpiece : (f.storedPiece records).Delivers names 0 [.ok b] := by
            refine .more hholds ?_
            rw [Nat.zero_add, hsize]
            exact .done
          rw [List.map_cons, hb, List.foldr_cons]
          exact hpiece.append (ih fun r hr => hok r (List.mem_cons_of_mem _ hr))

end RecordFile

/-! ## The source of a tree -/

namespace Dataset

variable {d : Dataset} {names : List String} {batchSize : Int} {stream : BatchStream}

/-- The column of a dataset that has a name. -/
def wanted (d : Dataset) (name : String) : ColumnHeader :=
  (d.header.find? fun h => h.name == name).getD default

theorem name_wanted {name : String} (hname : name ∈ d.names) : (d.wanted name).name = name := by
  obtain ⟨h, hfound, hname'⟩ := exists_header hname
  rw [wanted, hfound, Option.getD_some, hname']

/-- The rows of files, one file after the other. -/
def storedIn (d : Dataset) : List StoredFile → StoredRows
  | [] => .none
  | file :: files =>
    match file.rowsIn d.format with
    | .ok f => (f.stored d.wanted).append (d.storedIn files)
    | .error _ => d.storedIn files

/-- A dataset that is read without an error delivers the rows of its files. -/
theorem delivers_stream (hnames : names ⊆ d.names) (h : d.stream names batchSize = .ok stream)
    (hok : ∀ r ∈ stream, ∃ b, r = .ok b) : (d.storedIn d.files).Delivers names 0 stream := by
  rw [Dataset.stream] at h
  split at h
  · cases h
  · split at h
    · cases h
    · split at h
      · cases h
        obtain ⟨b, hb⟩ := hok _ (List.mem_singleton_self _)
        cases hb
      · cases h
        rw [select_eq hnames] at hok ⊢
        generalize d.files = files at hok ⊢
        induction files with
        | nil => exact .done
        | cons file files ih =>
            rw [List.flatMap_cons] at hok ⊢
            have hfirst := fun r hr => hok r (List.mem_append_left _ hr)
            have hrest := ih fun r hr => hok r (List.mem_append_right _ hr)
            cases hfile : file.rowsIn d.format with
            | error e =>
                simp only [hfile] at hfirst
                obtain ⟨b, hb⟩ := hfirst _ (List.mem_singleton_self _)
                cases hb
            | ok f =>
                simp only [hfile] at hfirst
                simp only [storedIn, hfile]
                exact (f.delivers_typedStream (fun name hname => name_wanted (hnames hname))
                  hfirst).append hrest

end Dataset

namespace FileTree

variable {t : FileTree} {kind : FileFormat}

/-- The rows that a path leads to, in files that keep types. -/
def typedRows (t : FileTree) (kind : FileFormat) (path : String) : StoredRows :=
  (t.filesAt path >>= Dataset.ofFiles kind).toOption.elim .none fun d => d.storedIn d.files

/-- The records that a path leads to, when some number of them come in one batch. -/
def foundRows (t : FileTree) (batchSize : Int) (path : String) : StoredRows :=
  (t.openFile path >>= recordsIn).toOption.elim .none (·.stored batchSize.toNat)

/-- The rows of a data file.  Only the types that are found for records depend on how many of them
come in one batch. -/
def stored (t : FileTree) (batchSize : Int) (file : DataFile) : StoredRows :=
  match FileFormat.ofName? file.format with
  | some .avro => t.foundRows batchSize file.path
  | some kind => t.typedRows kind file.path
  | none => .none

variable {path : String} {batchSize : Int} {columns : List String} {stream : BatchStream}

theorem delivers_openTyped (h : t.openTyped batchSize kind path columns = .ok stream)
    (hok : ∀ r ∈ stream, ∃ b, r = .ok b) : (t.typedRows kind path).Delivers columns 0 stream := by
  rw [openTyped_eq] at h
  obtain ⟨files, hfiles, h⟩ := bind_eq_ok_iff.1 h
  obtain ⟨d, hd, h⟩ := bind_eq_ok_iff.1 h
  obtain ⟨⟨⟩, hdemand, h⟩ := bind_eq_ok_iff.1 h
  rw [typedRows, hfiles, ok_bind, hd]
  exact d.delivers_stream (demand_eq_ok_iff.1 hdemand) h hok

theorem delivers_openFound (hcolumns : columns.Nodup) (hne : columns ≠ [])
    (h : t.openFound batchSize path columns = .ok stream) (hok : ∀ r ∈ stream, ∃ b, r = .ok b) :
    (t.foundRows batchSize path).Delivers columns 0 stream := by
  obtain ⟨file, hfile, h⟩ := bind_eq_ok_iff.1 h
  obtain ⟨f, hf, h⟩ := bind_eq_ok_iff.1 h
  obtain ⟨⟨⟩, -, h⟩ := bind_eq_ok_iff.1 h
  cases h
  rw [foundRows, hfile, ok_bind, hf]
  exact f.delivers_stream hcolumns hne hok

/-- **A tree stores the rows of its files**, in batches of any size. -/
theorem stores_rowSource (t : FileTree) (batchSize : Int) (file : DataFile) :
    (t.rowSource batchSize).Stores file (t.stored batchSize file) := by
  intro columns stream hcolumns hne h hok
  obtain ⟨⟨⟩, -, h⟩ := bind_eq_ok_iff.1 h
  obtain ⟨opened, hopened, h⟩ := bind_eq_ok_iff.1 h
  rw [mapError_eq_ok_iff] at hopened
  cases h
  have hopenedOk : ∀ r ∈ opened, ∃ b, r = .ok b := by
    intro r hr
    obtain ⟨b, hb⟩ := hok _ (List.mem_map_of_mem hr)
    exact ⟨b, mapError_eq_ok_iff.1 hb⟩
  -- Without errors there is nothing to report.
  have hsame : opened.map (fun r => r.mapError (BatchStream.report file.path)) = opened := by
    refine (List.map_congr_left fun r hr => ?_).trans (List.map_id opened)
    obtain ⟨b, rfl⟩ := hopenedOk r hr
    rfl
  rw [hsame]
  split at hopened
  · rename_i hformat
    rw [stored, hformat]
    exact delivers_openFound hcolumns hne hopened hopenedOk
  · rename_i kind hkind hformat
    rw [stored, hformat]
    cases kind with
    | avro => exact absurd rfl hkind
    | parquet => exact delivers_openTyped hopened hopenedOk
    | orc => exact delivers_openTyped hopened hopenedOk
  · cases hopened

end FileTree

end MergeOnRead
