import MergeOnRead.Files.RowSource
import MergeOnRead.Proofs.Batches
import MergeOnRead.Proofs.Conversions
import MergeOnRead.Proofs.Fields
import MergeOnRead.Read.Reader

/-!
# Rows of a file and the batches they come in

A file has rows, which are told apart by their positions, and a source hands them out batch by
batch, however it divides them (`StoredRows.Delivers`).  Each batch is conformed to the fields that
are read, and hands out its records.  `records_of_conform` says that a record consists of
the cells of its row: of what the file holds for a field, converted to the type of the field, or
null where the file does not have the field.
-/

namespace MergeOnRead

/-! ## Conforming a batch -/

namespace Batch

variable {b c : Batch}

@[simp] theorem length_transpose (count : Nat) (columns : List (List Value)) :
    (transpose count columns).length = count := by
  induction count generalizing columns with
  | zero => rfl
  | succ count ih => simp [transpose, ih]

/-- A row consists of the values that the columns have there. -/
theorem getElem_transpose {count i : Nat} {columns : List (List Value)}
    (hi : i < (transpose count columns).length) :
    (transpose count columns)[i] = columns.map fun c => c.getD i .null := by
  induction count generalizing i columns with
  | zero => cases hi
  | succ count ih =>
      cases i with
      | zero => simp [transpose, List.headD_eq_head?_getD, List.getD_eq_getElem?_getD,
          List.head?_eq_getElem?]
      | succ i =>
          rw [length_transpose] at hi
          simp only [transpose, List.getElem_cons_succ]
          rw [ih (by rw [length_transpose]; omega), List.map_map]
          refine List.map_congr_left fun c _ => ?_
          cases c <;> simp

/-- A column that has its name alone is found. -/
theorem resolveIndex?_indexOf {name : String} (hnames : b.names.Nodup) (hname : name ∈ b.names) :
    b.resolveIndex? (b.indexOf name) = some (b.names.idxOf name) := by
  have hcount : b.names.count name = 1 := List.count_eq_one_of_mem hnames hname
  have hlt : b.names.idxOf name < b.header.length := by
    have := List.idxOf_lt_length_of_mem hname
    rwa [names, List.length_map] at this
  rw [indexOf, if_pos hcount, resolveIndex?]
  simp [hlt]

/-- The values of a column are converted as if each were the only one. -/
theorem convertHeld_eq_ok {place : Nat} {type : ColumnType} {column : List Value}
    (h : b.convertHeld place type = .ok column) {i : Nat} (hi : i < b.size) :
    (b.header.getD place default).type.convertAll type
      [(b.rows.getD i []).getD place .null] = .ok [column.getD i .null] := by
  -- Values that are held behind the batch are converted as well, but do not matter here.
  obtain ⟨behind, hbehind⟩ : ∃ behind, (if (b.header.getD place default).type.isFlat then b.rows
      else b.rows ++ b.behind) = b.rows ++ behind := by
    split
    · exact ⟨[], (List.append_nil _).symm⟩
    · exact ⟨b.behind, rfl⟩
  simp only [convertHeld, hbehind, List.map_append] at h
  obtain ⟨as, bs, has, -, rfl⟩ := ColumnType.convertAll_append h
  have hlength : as.length = b.size := by
    rw [ColumnType.length_convertAll has, List.length_map, size]
  have hi' : i < as.length := by rwa [hlength]
  have hone := (ColumnType.convertAll_forall₂ has).get (i := i)
    (by rw [List.length_map]; exact hi) hi'
  simp only [List.get_eq_getElem, List.getElem_map] at hone
  rw [List.getD_append _ _ _ _ hi', List.getD_eq_getElem as _ hi', List.getD_eq_getElem b.rows _ hi]
  exact hone

/-- A column is found by its name, and its values are converted. -/
theorem conformColumn_eq_ok {name : String} {type : ColumnType} {column : List Value}
    (hnames : b.names.Nodup) (hname : name ∈ b.names)
    (h : b.conformColumn (some name) type = .ok column) {i : Nat} (hi : i < b.size) :
    (b.header.getD (b.names.idxOf name) default).type.convertAll type
      [(b.rows.getD i []).getD (b.names.idxOf name) .null] = .ok [column.getD i .null] := by
  simp only [conformColumn, resolveIndex?_indexOf hnames hname] at h
  obtain ⟨ws, hws, rfl⟩ := map_eq_ok_iff.1 h
  rw [convertHeld_eq_ok hws hi]
  simp [List.getD_eq_getElem?_getD, List.getElem?_take_of_lt hi]

/-- A batch that can be conformed has the columns that are wanted, and as many rows as before. -/
theorem conform_eq_ok {names : List (Option String)} {header : List ColumnHeader}
    (hheader : header ≠ []) (h : b.conform names header = .ok c) :
    ∃ columns, List.Forall₂ (fun p column => b.conformColumn p.1 p.2.type = .ok column)
        (names.zip header) columns ∧
      c.header = header ∧ c.size = b.size ∧
      ∀ i < b.size, c.rows.getD i [] = columns.map fun column => column.getD i .null := by
  obtain ⟨columns, hcolumns, h⟩ := bind_eq_ok_iff.1 h
  split at h
  · cases h
  · cases h
    have hcount : (if header.isEmpty then 0 else b.size) = b.size := by simp [hheader]
    refine ⟨columns, mapM_eq_ok_iff.1 hcolumns, rfl, ?_, fun i hi => ?_⟩
    · rw [size, length_transpose, hcount]
    · have hi' : i < (transpose (if header.isEmpty then 0 else b.size) columns).length := by
        rw [length_transpose, hcount]
        exact hi
      rw [List.getD_eq_getElem _ _ hi', getElem_transpose hi']

theorem header_of_conform {names : List (Option String)}
    {header : List ColumnHeader} (h : b.conform names header = .ok c) : c.header = header := by
  obtain ⟨columns, -, h⟩ := bind_eq_ok_iff.1 h
  split at h
  · cases h
  · cases h
    rfl

/-- A batch can be conformed when its columns can be converted. -/
theorem exists_conform {names : List (Option String)} {header : List ColumnHeader}
    (hlength : names.length = header.length)
    (h : ∀ p ∈ names.zip header, ∃ column, b.conformColumn p.1 p.2.type = .ok column) :
    ∃ c, b.conform names header = .ok c := by
  obtain ⟨columns, hcolumns⟩ : ∃ columns, (names.zip header).mapM
      (fun p => b.conformColumn p.1 p.2.type) = .ok columns := exists_mapM_eq_ok h
  rw [conform, hcolumns, ok_bind, if_neg (by omega)]
  exact ⟨_, rfl⟩

end Batch

@[simp] theorem ColumnType.decode_null (type : ColumnType) : type.decode .null = .null := by
  cases type <;> rfl

/-! ## The columns of fields -/

/-- The columns that fields are read into have their names and their types. -/
theorem Field.headers_eq_ok {fields : List Field} {header : List ColumnHeader}
    (h : Field.headers fields = .ok header) :
    List.Forall₂ (fun f c => c.name = f.name ∧ f.type.columnType = .ok c.type) fields header := by
  obtain ⟨columns, hcolumns, h⟩ := bind_eq_ok_iff.1 h
  cases h
  rw [List.forall₂_map_right_iff]
  refine (mapM_eq_ok_iff.1 hcolumns).imp fun f column hcolumn => ?_
  obtain ⟨type, htype, -, rfl⟩ := column_eq_ok_iff.1 hcolumn
  exact ⟨rfl, htype⟩

/-- The names that the columns of some fields have in records. -/
def Field.recordNames (fields : List Field) : List String :=
  (fields.map (·.name)).zipIdx.map fun (name, place) =>
    if name.isEmpty then "column_" ++ toString place else name

theorem Batch.recordNames_eq {b : Batch} {fields : List Field}
    (hnames : b.names = fields.map (·.name)) : b.recordNames = Field.recordNames fields := by
  rw [Batch.recordNames, hnames]
  rfl

/-! ## Rows of a file -/

/-- A value that is converted alone; null where it cannot be. -/
def ColumnType.convert (source target : ColumnType) (v : Value) : Value :=
  match source.convertAll target [v] with
  | .ok [w] => w
  | _ => .null

/-- The rows of a file by position: what each of its columns holds there, and of which type. -/
structure StoredRows where
  count : Nat
  type : (position : Nat) → (name : String) → ColumnType
  value : (position : Nat) → (name : String) → Value

namespace StoredRows

variable {s : StoredRows} {names : List String} {position : Nat} {b c : Batch}
  {stream : BatchStream}

/-- The cell of a row for a field: the value that the file has for its id, converted to the type of
the field and decoded, or null where the file does not have the field. -/
def cell (s : StoredRows) (fileFields : List Field) (position : Nat) (f : Field) : Value :=
  match Field.nameOf? fileFields f.id, f.type.columnType with
  | some name, .ok type =>
    type.decode ((s.type position name).convert type (s.value position name))
  | _, _ => .null

/-- A batch holds the named columns of the rows from a position on. -/
structure Holds (s : StoredRows) (wanted : List String) (position : Nat) (b : Batch) : Prop where
  names : b.names = wanted
  types : ∀ i < b.size, b.header = wanted.map fun name => ⟨name, s.type (position + i) name⟩
  rows : ∀ i < b.size, b.rows.getD i [] = wanted.map (s.value (position + i))

/-- A stream delivers the named columns of the rows from a position on, in order and to the end,
however it divides them into batches. -/
inductive Delivers (s : StoredRows) (names : List String) : Nat → BatchStream → Prop where
  | done : s.Delivers names s.count []
  | more {position : Nat} {b : Batch} {rest : BatchStream} (hb : s.Holds names position b)
      (hrest : s.Delivers names (position + b.size) rest) :
      s.Delivers names position (.ok b :: rest)

theorem Delivers.le_count (h : s.Delivers names position stream) : position ≤ s.count := by
  induction h with
  | done => exact Nat.le_refl _
  | more hb hrest ih => omega

/-- What a named column of a batch becomes in a row is the cell of its field. -/
theorem Holds.convertAll_eq_ok (hb : s.Holds names position b) (hnames : names.Nodup)
    {name : String} (hname : name ∈ names) {type : ColumnType} {column : List Value}
    (h : b.conformColumn (some name) type = .ok column) {i : Nat} (hi : i < b.size) :
    (s.type (position + i) name).convertAll type [s.value (position + i) name] =
      .ok [column.getD i .null] := by
  have hlt : names.idxOf name < names.length := List.idxOf_lt_length_of_mem hname
  have hconverted := Batch.conformColumn_eq_ok (by rw [hb.names]; exact hnames)
    (by rw [hb.names]; exact hname) h hi
  rw [hb.names, hb.types i hi, hb.rows i hi] at hconverted
  rwa [List.getD_eq_getElem _ _ (by rwa [List.length_map]), List.getElem_map,
    List.getD_eq_getElem _ _ (by rwa [List.length_map]), List.getElem_map,
    List.getElem_idxOf hlt] at hconverted

/-- The values of some columns make the record of the cells of their fields. -/
theorem recordOf_columns {fileFields fields : List Field} {header : List ColumnHeader}
    (hheader : List.Forall₂ (fun f c => c.name = f.name ∧ f.type.columnType = .ok c.type) fields
      header)
    (hb : s.Holds names position b) (hnames : names.Nodup)
    (hfound : ∀ f ∈ fields, ∀ name ∈ Field.nameOf? fileFields f.id, name ∈ names)
    {columns : List (List Value)}
    (hcolumns : List.Forall₂ (fun p column => b.conformColumn p.1 p.2.type = .ok column)
      ((Field.physicalNames fileFields fields).zip header) columns)
    {i : Nat} (hi : i < b.size) :
    Batch.recordOf header (columns.map fun column => column.getD i .null) =
      fields.map (s.cell fileFields (position + i)) := by
  induction hheader generalizing columns with
  | nil => rfl
  | @cons f head fields header hhead hrest ih =>
      rw [Field.physicalNames, List.map_cons, List.zip_cons_cons] at hcolumns
      obtain ⟨column, rest, hcolumn, hrest, rfl⟩ := List.forall₂_cons_left_iff.1 hcolumns
      have hcell : head.type.decode (column.getD i .null) = s.cell fileFields (position + i) f := by
        rw [cell, hhead.2]
        cases hname : Field.nameOf? fileFields f.id with
        | none =>
            -- The file does not have the field: its column is one of nulls.
            rw [hname] at hcolumn
            cases hcolumn
            simp [List.getD_eq_getElem?_getD, hi]
        | some name =>
            rw [hname] at hcolumn
            have hmem := hfound f (List.mem_cons_self ..) name hname
            simp only [ColumnType.convert, hb.convertAll_eq_ok hnames hmem hcolumn hi]
      rw [List.map_cons, List.map_cons, ← hcell,
        ← ih (fun g hg => hfound g (List.mem_cons_of_mem _ hg)) hrest]
      rfl

/-- **The records of a conformed batch consist of the cells of their rows.** -/
theorem Holds.recordOf_conform {fileFields fields : List Field} {header : List ColumnHeader}
    (hb : s.Holds names position b) (hnames : names.Nodup)
    (hfound : ∀ f ∈ fields, ∀ name ∈ Field.nameOf? fileFields f.id, name ∈ names)
    (hheader : Field.headers fields = .ok header) (hne : header ≠ [])
    (hconform : b.conform (Field.physicalNames fileFields fields) header = .ok c) :
    c.header = header ∧ c.size = b.size ∧
      c.rows.map (Batch.recordOf header) =
        (List.range b.size).map fun i => fields.map (s.cell fileFields (position + i)) := by
  obtain ⟨columns, hcolumns, hc, hsize, hrows⟩ := Batch.conform_eq_ok hne hconform
  refine ⟨hc, hsize, ?_⟩
  rw [← Batch.map_range_getD c.rows, List.map_map,
    show c.rows.length = b.size from hsize]
  refine List.map_congr_left fun i hi => ?_
  have hi' : i < b.size := List.mem_range.1 hi
  rw [Function.comp_apply, hrows i hi']
  exact recordOf_columns (Field.headers_eq_ok hheader) hb hnames hfound hcolumns hi'

/-- What is read of every row of every batch is what is read of the rows from the position on. -/
theorem Delivers.flatMap_eq {β : Type} (hstream : s.Delivers names position stream)
    {bs : List Batch} {wanted : List (Option String)} {header : List ColumnHeader}
    (hconform : List.Forall₂ (fun r c => ∃ b, r = .ok b ∧ b.conform wanted header = .ok c)
      stream bs)
    {read : Batch → List β} {g : Nat → β}
    (hread : ∀ position b c, s.Holds names position b → position + b.size ≤ s.count →
      b.conform wanted header = .ok c →
        read c = (List.range b.size).map fun i => g (position + i)) :
    bs.flatMap read = (List.range' position (s.count - position)).map g := by
  induction hstream generalizing bs with
  | done =>
      cases hconform
      simp
  | @more position b rest hb hrest ih =>
      obtain ⟨c, cs, ⟨b', hb', hc⟩, hcs, rfl⟩ := List.forall₂_cons_left_iff.1 hconform
      cases hb'
      have hend := hrest.le_count
      have hcount : s.count - position = b.size + (s.count - (position + b.size)) := by omega
      rw [List.flatMap_cons, hread position b c hb hend hc, ih hcs, hcount, ← List.range'_append_1,
        List.map_append, List.range'_eq_map_range (s := position) (n := b.size), List.map_map]
      rfl

/-! ## Dividing rows into batches -/

/-- The rows of a file from a position on, in a batch. -/
def batch (s : StoredRows) (columns : List String) (position count : Nat) : Batch where
  header := columns.map fun name => ⟨name, s.type position name⟩
  rows := (List.range count).map fun i => columns.map (s.value (position + i))

/-- The rows of a file from a position on, in batches of some sizes. -/
def divided (s : StoredRows) (columns : List String) : (position : Nat) → List Nat → BatchStream
  | _, [] => []
  | position, count :: counts =>
    .ok (s.batch columns position count) :: s.divided columns (position + count) counts

theorem size_batch {columns : List String} (count : Nat) :
    (s.batch columns position count).size = count := by
  rw [Batch.size, batch, List.length_map, List.length_range]

theorem holds_batch {columns : List String} (htype : ∀ p, s.type p = s.type 0) (count : Nat) :
    s.Holds columns position (s.batch columns position count) where
  names := by simp [Batch.names, batch, Function.comp_def]
  types i _ := by simp only [batch, htype]
  rows i hi := by
    rw [size_batch] at hi
    simp [batch, List.getD_eq_getElem?_getD, hi]

/-- Where the types of the columns do not change, rows are delivered in batches of any sizes. -/
theorem delivers_divided {columns : List String} (htype : ∀ p, s.type p = s.type 0)
    {counts : List Nat} (hcounts : counts.foldl (· + ·) position = s.count) :
    s.Delivers columns position (s.divided columns position counts) := by
  induction counts generalizing position with
  | nil =>
      obtain rfl : position = s.count := hcounts
      exact .done
  | cons count counts ih =>
      refine .more (holds_batch htype count) ?_
      rw [size_batch]
      exact ih hcounts

end StoredRows

/-- A source hands out the rows of a file, whichever columns are opened and in whatever batches, as
long as no batch fails.  The files of a tree are handed out in this way
(`FileTree.stores_rowSource`). -/
def RowSource.Stores (source : RowSource) (file : DataFile) (s : StoredRows) : Prop :=
  ∀ columns stream, columns.Nodup → columns ≠ [] →
    source file.path file.format columns = .ok stream →
      (∀ r ∈ stream, ∃ b, r = .ok b) → s.Delivers columns 0 stream

/-! ## Columns that a source has -/

theorem FileTree.demand_eq_ok_iff {present names : List String} {format path : String} :
    demand present names format path = .ok () ↔ names ⊆ present := by
  rw [demand]
  constructor
  · intro h
    split at h
    · rename_i hmissing
      intro name hname
      simpa using List.filter_eq_nil_iff.1 (List.isEmpty_iff.1 hmissing) name hname
    · cases h
  · intro h
    have hnone : (names.filter fun name => !present.contains name) = [] :=
      List.filter_eq_nil_iff.2 fun name hname => by simpa using h hname
    simp only [hnone]
    rfl

end MergeOnRead
