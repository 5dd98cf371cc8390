import MergeOnRead.Proofs.LoadedKeys
import MergeOnRead.Proofs.RowFilter

/-!
# Keys across renames

A file of deletes by equality is read by names: those that its key fields have in the schema that it
is read with.  The file keeps the names that the fields had when it was written.  So its keys
survive a change of names if, and only if, the key fields keep theirs (`load_keeps_keys_iff`),
although their ids never change.  A file with an id that is too long to be written is never
loaded.

Strategy:

* where the names stay, the index does, since it depends on names and types only;
* where the name of a key field is another one, a file with one row tells the difference
  (`oneRowSource`): the row has a value in the column of this field, and nulls elsewhere.  It can be
  loaded with the schema it was written with (`exists_load_oneRow`), and its key is not null there.
  Under the other name the file has no column, or one of nulls.
-/

namespace MergeOnRead

/-! ## Values of all types -/

/-- A value of a column type that fields are read as. -/
def FlatType.sample : FlatType → Scalar
  | .int _ | .uint _ => .int 0
  | .half | .single | .double => .float ⟨0⟩
  | .bool => .bool false
  | .binary _ | .fixedBinary _ => .binary .fixed []
  | .date32 | .date64 => .date ⟨0⟩
  | .timestamp _ _ => .timestamp ⟨0⟩
  | .decimal _ _ scale => .decimal (.finite false 0 (-scale))
  | _ => .text ""

def ColumnType.sample : ColumnType → Value
  | .flat type => .scalar type.sample
  | .list _ _ | .map _ _ => .list []
  | .struct _ => .text ""

/-- A value that is handed out has a canonical form, which is not null and can be looked up. -/
structure Value.Presentable (v : Value) (c : Value) : Prop where
  canonical : v.canonical = .ok c
  hashable : c.isHashable = true
  settled : c.key.isSettled = true
  dated : v.every Scalar.isDated = true

theorem Value.presentable_null : Value.null.Presentable .null := ⟨rfl, rfl, rfl, by decide⟩

theorem ColumnType.presentable_sample (type : ColumnType) :
    ∃ c, (type.decode type.sample).Presentable c ∧ c.key ≠ Value.null.key := by
  cases type with
  | flat type => cases type <;> exact ⟨_, ⟨rfl, rfl, rfl, rfl⟩, nofun⟩
  | list large item => exact ⟨.tuple [], ⟨rfl, rfl, rfl, rfl⟩, nofun⟩
  | map key value => exact ⟨.tuple [], ⟨rfl, rfl, rfl, rfl⟩, nofun⟩
  | struct fields => exact ⟨.text "", ⟨rfl, rfl, rfl, rfl⟩, nofun⟩

theorem ColumnType.convert_self (type : ColumnType) (v : Value) : type.convert type v = v := by
  rw [convert, convertAll_self]

/-- A null stays null, whatever it is converted to. -/
theorem ColumnType.convert_null (source target : ColumnType) :
    source.convert target .null = .null := by
  rw [convert]
  split
  · rename_i w h
    unfold convertAll at h
    split at h
    · rcases FlatType.convertAll_eq_ok h with ⟨hw, -⟩ | ⟨convert, -, hw, -⟩
      · simpa using hw
      · simpa [ FlatType.Conversion.apply?, eq_comm] using hw
    · simpa [eq_comm] using h
    · split at h
      · simpa [eq_comm] using h
      · obtain ⟨items, -, h⟩ := bind_eq_ok_iff.1 h
        simpa [regroup, eq_comm] using h
    · split at h
      · simpa [eq_comm] using h
      · obtain ⟨keys, -, h⟩ := bind_eq_ok_iff.1 h
        obtain ⟨contents, -, h⟩ := bind_eq_ok_iff.1 h
        simpa [regroup, eq_comm] using h
    · simp at h
    · split at h
      · simpa [eq_comm] using h
      · cases h
  · rfl

/-! ## Files as they were written -/

/-- A source has the file with columns that are those of fields of a schema, the key fields among
them, and under no other names. -/
structure DeleteFile.WrittenUnder (f : DeleteFile) (s : TableSchema) (source : RowSource)
    (columns : List String) (stored : StoredRows) : Prop where
  keys : ∀ id ∈ f.fieldIds, ∀ field ∈ s.findField? id, field.name ∈ columns
  types : ∀ name ∈ columns, ∃ field ∈ s.fields, field.name = name ∧
    ∀ p, field.type.columnType = .ok (stored.type p name)
  opens : ∀ names, names.Nodup → names ⊆ columns →
    ∃ stream, source f.path f.format names = .ok stream ∧ stored.Delivers names 0 stream
  refuses : ∀ names, ¬names ⊆ columns → ∃ e, source f.path f.format names = .error e

/-- One row with a value in one column, and nulls elsewhere. -/
def oneRow (type : String → ColumnType) (column : String) : StoredRows where
  count := 1
  type _ name := type name
  value _ name := if name = column then (type name).sample else .null

/-- A source with a file of one row. -/
def oneRowSource (type : String → ColumnType) (column : String) (columns : List String) :
    RowSource := fun path format names => do
  FileTree.demand columns names format path
  .ok [.ok
    { header := names.map fun name => ⟨name, type name⟩
      rows := [names.map ((oneRow type column).value 0)] }]

section OneRow

variable {type : String → ColumnType} {column : String} {columns names : List String}
  {path format : String} {fields : List Field}

/-- The batch of some columns of the row. -/
def oneRowBatch (type : String → ColumnType) (column : String) (names : List String) : Batch where
  header := names.map fun name => ⟨name, type name⟩
  rows := [names.map ((oneRow type column).value 0)]

theorem holds_oneRowBatch : (oneRow type column).Holds names 0 (oneRowBatch type column names) where
  names := by
    rw [Batch.names, oneRowBatch, List.map_map]
    exact List.map_id names
  types i hi := rfl
  rows i hi := by
    obtain rfl : i = 0 := Nat.lt_one_iff.1 hi
    rfl

theorem oneRowSource_eq_ok (hnames : names ⊆ columns) :
    oneRowSource type column columns path format names =
      .ok [.ok (oneRowBatch type column names)] := by
  rw [oneRowSource, FileTree.demand_eq_ok_iff.2 hnames]
  rfl

theorem delivers_oneRowBatch :
    (oneRow type column).Delivers names 0 [.ok (oneRowBatch type column names)] :=
  .more holds_oneRowBatch .done

theorem headers_of_types (hdigits : ∀ g ∈ fields, g.idDigits ≤ Numeral.maxDigits)
    (htypes : ∀ g ∈ fields, g.type.columnType = .ok (type g.name)) :
    Field.headers fields = .ok ((fields.map (·.name)).map fun name => ⟨name, type name⟩) := by
  rw [Field.headers_eq, List.map_map, mapM_eq_ok_iff, List.forall₂_map_right_iff]
  refine List.forall₂_same.2 fun g hg => ?_
  rw [Field.header, Field.column_eq_ok_iff.2 ⟨_, htypes g hg, hdigits g hg, rfl⟩]
  rfl

variable (type column) in
/-- The row can be conformed to its own columns. -/
theorem exists_conform_oneRowBatch (hnames : names.Nodup) :
    ∃ c, (oneRowBatch type column names).conform (names.map some)
      (names.map fun name => ⟨name, type name⟩) = .ok c := by
  refine Batch.exists_conform (by simp) ?_
  intro p hp
  rw [List.zip_map', List.mem_map] at hp
  obtain ⟨name, hname, rfl⟩ := hp
  have hbatch : (oneRowBatch type column names).names = names := holds_oneRowBatch.names
  have hlt : names.idxOf name < names.length := List.idxOf_lt_length_of_mem hname
  rw [Batch.conformColumn, Batch.resolveIndex?_indexOf (by rwa [hbatch]) (by rwa [hbatch])]
  -- The column has the type that is wanted.
  have hsource : ((oneRowBatch type column names).header.getD
      ((oneRowBatch type column names).names.idxOf name) default).type = type name := by
    rw [hbatch, oneRowBatch, List.getD_eq_getElem _ _ (by rwa [List.length_map]), List.getElem_map,
      List.getElem_idxOf hlt]
  simp only [Batch.convertHeld, hsource, ColumnType.convertAll_self]
  exact ⟨_, rfl⟩

variable (type column) in
/-- What the row holds for a field can be handed out. -/
theorem presentable_cell (hids : (fields.map (·.id)).Nodup)
    (htypes : ∀ g ∈ fields, g.type.columnType = .ok (type g.name)) {g : Field} (hg : g ∈ fields) :
    (oneRow type column).cell fields 0 g =
        (type g.name).decode (if g.name = column then (type g.name).sample else .null) ∧
      ∃ c, ((oneRow type column).cell fields 0 g).Presentable c := by
  have hcell : (oneRow type column).cell fields 0 g =
      (type g.name).decode (if g.name = column then (type g.name).sample else .null) := by
    rw [StoredRows.cell, Field.nameOf?_self hids hg, htypes g hg]
    simp only [oneRow, ColumnType.convert_self]
  refine ⟨hcell, ?_⟩
  rw [hcell]
  split
  · obtain ⟨c, hc, -⟩ := (type g.name).presentable_sample
    exact ⟨c, hc⟩
  · rw [ColumnType.decode_null]
    exact ⟨_, Value.presentable_null⟩

theorem cell_of_ne (hids : (fields.map (·.id)).Nodup) {g : Field} (hg : g ∈ fields)
    (hname : g.name ≠ column) : (oneRow type column).cell fields 0 g = .null := by
  rw [StoredRows.cell, Field.nameOf?_self hids hg]
  cases g.type.columnType with
  | ok target =>
      simp only [oneRow, if_neg hname, ColumnType.convert_null, ColumnType.decode_null]
  | error e => rfl

/-- Values that can be handed out make a key that can be looked up. -/
theorem exists_key_of_presentable {values : List Value} (h : ∀ v ∈ values, ∃ c, v.Presentable c) :
    ∃ key, Row.canonicalValues values = .ok key ∧ Value.areHashable key = true ∧
      Key.areSettled (Value.keys key) = true := by
  induction values with
  | nil => exact ⟨[], rfl, rfl, rfl⟩
  | cons v values ih =>
      obtain ⟨c, hc⟩ := h v (List.mem_cons_self ..)
      obtain ⟨key, hkey, hhashable, hsettled⟩ := ih fun w hw => h w (List.mem_cons_of_mem _ hw)
      refine ⟨c :: key, ?_, ?_, ?_⟩
      · rw [Row.canonicalValues] at hkey ⊢
        rw [List.mapM_cons, Row.canonical, hc.canonical, hkey]
        rfl
      · rw [Value.areHashable, hc.hashable, hhashable, Bool.and_self]
      · rw [Value.keys, Key.areSettled, hc.settled, hsettled, Bool.and_self]

/-- The row has a record when its columns have names, and it consists of the cells. -/
theorem keyRows_oneRowBatch {c : Batch} (hids : (fields.map (·.id)).Nodup)
    (hnames : (fields.map (·.name)).Nodup) (hnamed : ∀ g ∈ fields, g.name ≠ "") (hne : fields ≠ [])
    (hdigits : ∀ g ∈ fields, g.idDigits ≤ Numeral.maxDigits)
    (htypes : ∀ g ∈ fields, g.type.columnType = .ok (type g.name))
    (hconform : (oneRowBatch type column (fields.map (·.name))).conform
      ((fields.map (·.name)).map some)
      ((fields.map (·.name)).map fun name => ⟨name, type name⟩) = .ok c) :
    DeleteFile.keyRows c = .ok ([fields.map ((oneRow type column).cell fields 0)], none) := by
  have hheader := headers_of_types hdigits htypes
  have hheaderne :
      ((fields.map (·.name)).map fun name => (⟨name, type name⟩ : ColumnHeader)) ≠ [] := by
    simpa using hne
  obtain ⟨hc, hsize, hrows⟩ :=
    holds_oneRowBatch.recordOf_conform_self hids hnames (fun g hg => List.mem_map_of_mem hg) hheader
      hheaderne hconform
  have hsize' : c.size = 1 := hsize
  have hnamed' : ∀ head ∈ c.header, head.name ≠ "" := by
    intro head hhead
    rw [hc, List.map_map, List.mem_map] at hhead
    obtain ⟨g, hg, rfl⟩ := hhead
    exact hnamed g hg
  have hnodup : c.recordNames.Nodup := by
    rw [Batch.recordNames_of_named hnamed', Batch.names, hc, List.map_map]
    simpa [Function.comp_def] using hnames
  have hdecoded : c.decoded = .ok [fields.map ((oneRow type column).cell fields 0)] := by
    rw [Batch.decoded_eq_ok hnodup (hc ▸ hheaderne), hc, hrows]
    rfl
  have hdated : Batch.areDated [fields.map ((oneRow type column).cell fields 0)] = true := by
    rw [Batch.areDated, List.all_cons, List.all_nil, Bool.and_true, List.all_eq_true]
    intro v hv
    obtain ⟨g, hg, rfl⟩ := List.mem_map.1 hv
    obtain ⟨-, c, hc⟩ := presentable_cell type column hids htypes hg
    exact hc.dated
  rw [DeleteFile.keyRows, if_neg (by omega), Batch.recordBlocks, hdecoded, ok_bind, if_pos hdated]

variable (type column) in
/-- The file can be loaded with the schema that it was written with, and the key of its row is
found. -/
theorem exists_load_oneRow {f : DeleteFile} {s : TableSchema} (hfields : f.keyFields s = .ok fields)
    (hids : f.fieldIds.Nodup) (hkeys : f.fieldIds ≠ []) (hmax : f.fieldIds.length ≤ maxIndex)
    (hnames : (fields.map (·.name)).Nodup) (hnamed : ∀ g ∈ fields, g.name ≠ "")
    (hdigits : ∀ g ∈ fields, g.idDigits ≤ Numeral.maxDigits)
    (htypes : ∀ g ∈ fields, g.type.columnType = .ok (type g.name))
    (hcolumns : fields.map (·.name) ⊆ columns) :
    ∃ index key, f.loadEqualities (oneRowSource type column columns) s = .ok index ∧
      Row.canonicalValues (fields.map ((oneRow type column).cell fields 0)) = .ok key ∧
        index.keys.contains key = true := by
  have hfieldIds := DeleteFile.map_id_of_keyFields hfields
  have hids' : (fields.map (·.id)).Nodup := by rwa [hfieldIds]
  have hne : fields ≠ [] := by
    rintro rfl
    exact hkeys hfieldIds.symm
  obtain ⟨c, hconform⟩ := exists_conform_oneRowBatch type column hnames
  have hrecords := keyRows_oneRowBatch hids' hnames hnamed hne hdigits htypes hconform
  have hcells : ∀ v ∈ fields.map ((oneRow type column).cell fields 0), ∃ c, v.Presentable c := by
    intro v hv
    obtain ⟨g, hg, rfl⟩ := List.mem_map.1 hv
    exact (presentable_cell type column hids' htypes hg).2
  obtain ⟨key, hkey, hhashable, hsettled⟩ := exists_key_of_presentable hcells
  have hlength : (fields.map ((oneRow type column).cell fields 0)).length ≤ maxIndex := by
    have := congrArg List.length hfieldIds
    simp only [List.length_map] at this ⊢
    omega
  have hset := (Row.setKey_ofValues hlength).trans hkey
  have hbatches : (Reader.conformed ((fields.map (·.name)).map some)
      ((fields.map (·.name)).map fun name => ⟨name, type name⟩)
      (.stream [.ok (oneRowBatch type column (fields.map (·.name)))] 0)).batches = ([c], none) :=
    Reader.batches_conformed_iff.2 (.cons ⟨_, rfl, hconform⟩ .nil)
  have hopen : f.openFields (oneRowSource type column columns) fields = .ok
      (.conformed ((fields.map (·.name)).map some)
        ((fields.map (·.name)).map fun name => ⟨name, type name⟩)
        (.stream [.ok (oneRowBatch type column (fields.map (·.name)))] 0)) := by
    rw [DeleteFile.openFields, oneRowSource_eq_ok hcolumns, ok_bind,
      headers_of_types hdigits htypes]
    rfl
  have hadd : f.addKeys .empty 0 [c] = .ok (KeySet.empty.insert ⟨f.path, 0⟩ key).1 := by
    rw [DeleteFile.addKeys, hrecords, ok_bind]
    simp [KeySet.addRows, KeySet.addRow, hset, hhashable, DeleteFile.addKeys]
  obtain ⟨index, hload⟩ : ∃ index,
      f.loadEqualities (oneRowSource type column columns) s = .ok index := by
    rw [DeleteFile.loadEqualities, hfields, ok_bind, hopen, ok_bind, hbatches]
    simp only [hadd, ok_bind]
    exact ⟨_, rfl⟩
  refine ⟨index, key, hload, hkey, ?_⟩
  exact (DeleteFile.contains_iff_of_load hfields hids hkeys hnames
    (fun g hg => List.mem_map_of_mem hg) (oneRowSource_eq_ok hcolumns) delivers_oneRowBatch hload).2
      ⟨0, Nat.zero_lt_one, key, hkey, hsettled, rfl⟩

/-- Where the file is loaded, the names of its key fields are there. -/
theorem names_subset_of_load_oneRow {f : DeleteFile} {s : TableSchema} {index : DeleteIndex}
    (hfields : f.keyFields s = .ok fields)
    (h : f.loadEqualities (oneRowSource type column columns) s = .ok index) :
    fields.map (·.name) ⊆ columns := by
  obtain ⟨opened, hopened, h⟩ := bind_eq_ok_iff.1 h
  obtain rfl : fields = opened := Except.ok.inj (hfields.symm.trans hopened)
  obtain ⟨reader, hreader, -⟩ := bind_eq_ok_iff.1 h
  obtain ⟨stream, hstream, -⟩ := bind_eq_ok_iff.1 hreader
  obtain ⟨⟨⟩, hdemand, -⟩ := bind_eq_ok_iff.1 hstream
  exact FileTree.demand_eq_ok_iff.1 hdemand

end OneRow

/-! ## Names that change -/

namespace DeleteFile

variable {f : DeleteFile} {s t : TableSchema}

/-- The name that a field has in a schema. -/
def nameIn? (s : TableSchema) (id : Int) : Option String := (s.findField? id).map (·.name)

/-- The key fields of a file are there in two schemas, with the same types, and can be read. -/
structure KeysKept (f : DeleteFile) (s t : TableSchema) : Prop where
  fields : ∀ id ∈ f.fieldIds, ∃ a b, s.findField? id = some a ∧ t.findField? id = some b ∧
    b.type = a.type ∧ a.name ≠ "" ∧ ∃ type, a.type.columnType = .ok type
  names : s.fieldNames.Nodup ∧ t.fieldNames.Nodup

/-- Where the key fields keep their names, the index stays the same. -/
theorem load_of_names_kept (hkeys : f.KeysKept s t)
    (hnames : ∀ id ∈ f.fieldIds, nameIn? t id = nameIn? s id) {source : RowSource}
    {index : DeleteIndex} (h : f.load source s = .ok index) : f.load source t = .ok index := by
  refine load_eq_ok_of_sameKeys rfl rfl (fun id hid => ?_) h
  obtain ⟨a, b, ha, hb, htype, -, -⟩ := hkeys.fields id hid
  have hname := hnames id hid
  rw [nameIn?, nameIn?, ha, hb, Option.map_some, Option.map_some, Option.some.injEq] at hname
  rw [ha, hb, Option.map_some, Option.map_some, Field.form, Field.form, htype, hname]

/-- The type of the column that the field with a name is read as. -/
def typeNamed (s : TableSchema) (name : String) : ColumnType :=
  match s.findFieldByName? name with
  | some g => g.type.columnType.toOption.getD (.flat .null)
  | none => .flat .null

theorem columnType_eq_typeNamed (hnames : s.fieldNames.Nodup) {g : Field} (hg : g ∈ s.fields)
    {type : ColumnType} (htype : g.type.columnType = .ok type) : typeNamed s g.name = type := by
  have hfound : s.findFieldByName? g.name = some g :=
    TableSchema.findLast?_eq_of_unique hg (by simp) fun g' hg' hname =>
      List.inj_on_of_nodup_map hnames hg' hg (by simpa using hname)
  simp only [typeNamed, hfound, htype]
  rfl

theorem KeysKept.of_mem_keyFields (h : f.KeysKept s t) {fields : List Field}
    (hfields : f.keyFields s = .ok fields) {g : Field} (hg : g ∈ fields) :
    g.name ≠ "" ∧ g.type.columnType = .ok (typeNamed s g.name) := by
  obtain ⟨id, hid, hfound⟩ := (mem_of_keyFields hfields).1 hg
  obtain ⟨hmem, -⟩ := TableSchema.of_findLast?_eq_some hfound
  obtain ⟨a, -, ha, -, -, hnamed, type, htype⟩ := h.fields id hid
  obtain rfl : g = a := Option.some.inj (hfound.symm.trans ha)
  exact ⟨hnamed, by rw [columnType_eq_typeNamed h.names.1 hmem htype, htype]⟩

theorem canonical_eq_ok {v c : Value} : Row.canonical v = .ok c ↔ v.canonical = .ok c := by
  rw [Row.canonical]
  cases v.canonical <;> simp [Except.mapError]

/-- Equal keys are made of values that are equal one by one. -/
theorem keys_eq_at {ids : List Int} {v w : Int → Value} {k l : List Value}
    (hk : Row.canonicalValues (ids.map v) = .ok k) (hl : Row.canonicalValues (ids.map w) = .ok l)
    (hsame : Value.keys k = Value.keys l) :
    ∀ id ∈ ids, ∃ c d, (v id).canonical = .ok c ∧ (w id).canonical = .ok d ∧ c.key = d.key := by
  rw [Row.canonicalValues, mapM_eq_ok_iff, List.forall₂_map_left_iff] at hk hl
  induction ids generalizing k l with
  | nil =>
      intro id hid
      cases hid
  | cons i ids ih =>
      obtain ⟨c, k, hc, hrest, rfl⟩ := List.forall₂_cons_left_iff.1 hk
      obtain ⟨d, l, hd, hothers, rfl⟩ := List.forall₂_cons_left_iff.1 hl
      rw [Value.keys, Value.keys, List.cons.injEq] at hsame
      intro id hid
      rcases List.mem_cons.1 hid with rfl | hid
      · exact ⟨c, d, canonical_eq_ok.1 hc, canonical_eq_ok.1 hd, hsame.1⟩
      · exact ih hrest hothers hsame.2 id hid

/-- A file of one row that was written with a schema. -/
theorem writtenUnder_oneRow {fields : List Field} (hfields : f.keyFields s = .ok fields)
    (hnames : s.fieldNames.Nodup) (htypes : ∀ g ∈ fields, ∃ type, g.type.columnType = .ok type)
    (column : String) :
    f.WrittenUnder s (oneRowSource (typeNamed s) column (fields.map (·.name)))
      (fields.map (·.name)) (oneRow (typeNamed s) column) where
  keys id hid field hfield :=
    List.mem_map_of_mem ((mem_of_keyFields hfields).2 ⟨id, hid, hfield⟩)
  types name hname := by
    obtain ⟨g, hg, rfl⟩ := List.mem_map.1 hname
    obtain ⟨id, -, hfound⟩ := (mem_of_keyFields hfields).1 hg
    obtain ⟨hmem, -⟩ := TableSchema.of_findLast?_eq_some hfound
    obtain ⟨type, htype⟩ := htypes g hg
    refine ⟨g, hmem, rfl, fun p => ?_⟩
    change g.type.columnType = .ok (typeNamed s g.name)
    rw [columnType_eq_typeNamed hnames hmem htype, htype]
  opens names _ hcolumns := ⟨_, oneRowSource_eq_ok hcolumns, delivers_oneRowBatch⟩
  refuses names hcolumns := by
    rw [oneRowSource]
    cases hdemand : FileTree.demand (fields.map (·.name)) names f.format f.path with
    | error e => exact ⟨e, rfl⟩
    | ok _ => exact absurd (FileTree.demand_eq_ok_iff.1 hdemand) hcolumns

/-- No id of a key field has too many digits to be written. -/
def HasWritableIds (f : DeleteFile) : Prop :=
  ∀ id ∈ f.fieldIds, (Nat.toDigits 10 id.natAbs).length ≤ Numeral.maxDigits

theorem HasWritableIds.idDigits_le (h : f.HasWritableIds) {fields : List Field}
    (hfields : f.keyFields s = .ok fields) {g : Field} (hg : g ∈ fields) :
    g.idDigits ≤ Numeral.maxDigits := by
  refine h g.id ?_
  rw [← map_id_of_keyFields hfields]
  exact List.mem_map_of_mem hg

/-- A file that is loaded has columns for its key fields, with their ids. -/
theorem hasWritableIds_of_load (hcontent : f.content = .equalityDeletes) {source : RowSource}
    {index : DeleteIndex} (h : f.load source s = .ok index) : f.HasWritableIds := by
  rw [load, hcontent] at h
  obtain ⟨fields, hfields, h⟩ := bind_eq_ok_iff.1 h
  obtain ⟨reader, hreader, -⟩ := bind_eq_ok_iff.1 h
  obtain ⟨stream, -, hreader⟩ := bind_eq_ok_iff.1 hreader
  obtain ⟨header, hheader, -⟩ := bind_eq_ok_iff.1 hreader
  have hcolumns := liftError_eq_ok_iff.1 hheader
  rw [Field.headers_eq, mapM_eq_ok_iff] at hcolumns
  intro id hid
  rw [← map_id_of_keyFields hfields] at hid
  obtain ⟨g, hg, rfl⟩ := List.mem_map.1 hid
  obtain ⟨c, -, hc⟩ := exists_mem_of_forall₂ hcolumns.flip hg
  obtain ⟨column, hcolumn, -⟩ := map_eq_ok_iff.1 hc
  obtain ⟨-, -, hdigits, -⟩ := Field.column_eq_ok_iff.1 hcolumn
  exact hdigits

/-- Under another name, the row has no key with a value for the field. -/
theorem names_kept_of_keys_kept (hcontent : f.content = .equalityDeletes)
    (hids : f.fieldIds.Nodup) (hmax : f.fieldIds.length ≤ maxIndex) (hkeys : f.KeysKept s t)
    (hwritable : f.HasWritableIds)
    (h : ∀ source columns stored, f.WrittenUnder s source columns stored →
      ∀ i, f.load source s = .ok i →
        ∃ j, f.load source t = .ok j ∧
          ∀ values, j.keys.contains values = i.keys.contains values) :
    ∀ id ∈ f.fieldIds, nameIn? t id = nameIn? s id := by
  intro id hid
  by_contra hchanged
  obtain ⟨a, b, ha, hb, -⟩ := hkeys.fields id hid
  have hrenamed : b.name ≠ a.name := by
    rw [nameIn?, nameIn?, ha, hb] at hchanged
    simpa using hchanged
  obtain ⟨fields, hfields⟩ := exists_keyFields (f := f) (s := s) fun id hid => by
    obtain ⟨a, -, ha, -⟩ := hkeys.fields id hid
    exact ⟨a, ha⟩
  obtain ⟨others, hothers⟩ := exists_keyFields (f := f) (s := t) fun id hid => by
    obtain ⟨-, b, -, hb, -⟩ := hkeys.fields id hid
    exact ⟨b, hb⟩
  have hne : f.fieldIds ≠ [] := List.ne_nil_of_mem hid
  have hknown := fun g (hg : g ∈ fields) => hkeys.of_mem_keyFields hfields hg
  have hnodup := nodup_names_of_keyFields hfields hids hkeys.names.1
  have hnodup' := nodup_names_of_keyFields hothers hids hkeys.names.2
  -- A file of one row can be loaded with the schema it was written with.
  obtain ⟨i, key, hi, hkey, hin⟩ := exists_load_oneRow (typeNamed s) a.name
    hfields hids hne hmax hnodup (fun g hg => (hknown g hg).1)
    (fun g hg => hwritable.idDigits_le hfields hg) (fun g hg => (hknown g hg).2)
    (List.Subset.refl _)
  have hload : ∀ (schema : TableSchema) (source : RowSource),
      f.load source schema = f.loadEqualities source schema := by
    intro schema source
    rw [load, hcontent]
  obtain ⟨j, hj, hsame⟩ := h _ _ _ (writtenUnder_oneRow hfields hkeys.names.1
    (fun g hg => ⟨_, (hknown g hg).2⟩) a.name) i (by rw [hload, hi])
  rw [hload] at hj
  -- Its key is found, also with the other schema.
  rw [← hsame] at hin
  have hsub := names_subset_of_load_oneRow hothers hj
  obtain ⟨p, hp, key', hkey', -, hfound⟩ :=
    (contains_iff_of_load hothers hids hne hnodup' (fun g hg => List.mem_map_of_mem hg)
      (oneRowSource_eq_ok hsub) delivers_oneRowBatch hj).1 hin
  obtain rfl : p = 0 := Nat.lt_one_iff.1 hp
  -- So both values of the field have the same canonical form, but one of them is null.
  rw [map_of_keyFields hfields _ .null] at hkey
  rw [map_of_keyFields hothers _ .null] at hkey'
  obtain ⟨c, d, hc, hd, hcd⟩ := keys_eq_at hkey hkey' hfound.symm id hid
  have hmem : a ∈ fields := (mem_of_keyFields hfields).2 ⟨id, hid, ha⟩
  have hmem' : b ∈ others := (mem_of_keyFields hothers).2 ⟨id, hid, hb⟩
  have hcell := (presentable_cell (typeNamed s) a.name (by rwa [map_id_of_keyFields hfields])
    (fun g hg => (hknown g hg).2) hmem).1
  obtain ⟨sample, hsample, hnotnull⟩ := (typeNamed s a.name).presentable_sample
  rw [ha, Option.map_some, Option.getD_some, hcell, if_pos rfl, hsample.canonical] at hc
  rw [hb, Option.map_some, Option.getD_some,
    cell_of_ne (by rwa [map_id_of_keyFields hothers]) hmem' hrenamed] at hd
  cases hc
  cases hd
  exact hnotnull hcd

/-- **The keys of a file survive a change of names exactly when its key fields keep theirs**, unless
the file cannot be loaded for the length of its ids. -/
theorem load_keeps_keys_iff (hcontent : f.content = .equalityDeletes) (hids : f.fieldIds.Nodup)
    (hmax : f.fieldIds.length ≤ maxIndex) (hkeys : f.KeysKept s t) :
    (∀ source columns stored, f.WrittenUnder s source columns stored →
      ∀ i, f.load source s = .ok i →
        ∃ j, f.load source t = .ok j ∧
          ∀ values, j.keys.contains values = i.keys.contains values) ↔
    (f.HasWritableIds → ∀ id ∈ f.fieldIds, nameIn? t id = nameIn? s id) := by
  constructor
  · intro h hwritable
    exact names_kept_of_keys_kept hcontent hids hmax hkeys hwritable h
  · intro hnames source columns stored _ i h
    have hkept := hnames (hasWritableIds_of_load hcontent h)
    exact ⟨i, load_of_names_kept hkeys hkept h, fun values => rfl⟩

/-- Two columns of integers with some names. -/
def pairNamed (first second : String) : TableSchema where
  id := 0
  fields := [⟨1, first, .atomic "INT" true, none⟩, ⟨2, second, .atomic "INT" true, none⟩]
  partitionKeys := []
  highestFieldId := 2
  options := []

/-- Deletes by the first of the columns. -/
def firstDeletes : DeleteFile :=
  ⟨"e.parquet", "parquet", [], .equalityDeletes, 1, 0, [1], none, none⟩

/-- A swap of two names changes the keys of a file, or makes it unreadable. -/
theorem not_load_keeps_keys_swapped :
    ¬∀ source columns stored, firstDeletes.WrittenUnder (pairNamed "a" "b") source columns stored →
      ∀ i, firstDeletes.load source (pairNamed "a" "b") = .ok i →
        ∃ j, firstDeletes.load source (pairNamed "b" "a") = .ok j ∧
          ∀ values, j.keys.contains values = i.keys.contains values := by
  have hkeys : firstDeletes.KeysKept (pairNamed "a" "b") (pairNamed "b" "a") := by
    refine ⟨fun id hid => ?_, by decide, by decide⟩
    obtain rfl : id = 1 := List.mem_singleton.1 hid
    exact ⟨_, _, rfl, rfl, rfl, by decide, _, rfl⟩
  intro h
  have hwritable : firstDeletes.HasWritableIds := by
    intro id hid
    obtain rfl : id = 1 := List.mem_singleton.1 hid
    decide
  have hname := (load_keeps_keys_iff rfl (by decide) (by decide) hkeys).1 h hwritable 1 (by decide)
  exact absurd hname (by decide)

end DeleteFile

end MergeOnRead
