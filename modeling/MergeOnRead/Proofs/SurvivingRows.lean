import MergeOnRead.Proofs.FailingStreams
import Mathlib.Data.List.Infix

/-!
# The rows of a file that survive

A file is read in pieces, but its deletes speak of the file as a whole: of positions in it, and of
values that its rows have.  Here the file is one table, `whole`, and a batch of it is some of its
rows from a position on (`Batch.IsPartOf`).  A row survives when no index deletes it
(`Batch.survives`), which is said without a filter.

Strategy:

* `survives_eq`: a filter of the indexes comes to the same by its positions and its groups;
* `eq_survives_of_isDeleted`: so the answer of the filter about a row, if there is one, is right;
* `apply_eq_survivors`: and a batch that can be filtered keeps the rows that survive.  The batch
  itself need not have records, as only its key columns were decoded;
* `exists_apply_eq_ok`: when all rows can be handed out and make keys, every batch can be filtered.
-/

namespace MergeOnRead

namespace Batch

/-! ## One row of a file -/

section Rows

variable (whole : Batch) (fields : List Field) (p : Nat)

/-- The record of the row at a position. -/
def recordAt : List Value := recordOf whole.header (whole.rows.getD p [])

/-- The row at a position as an iterator hands it out. -/
def rowAt : Row := RecordIterator.rowOf whole.header.length (whole.recordAt p)

/-- The value of the field with an id in the row at a position, as it is handed out. -/
def fieldValue (id : Int) : Value :=
  match Field.positionOf? fields id with
  | some place => (whole.recordAt p).getD place .null
  | none => .null

variable (dataPath : String) (indexes : List DeleteIndex)

/-- No index deletes the row at a position. -/
def survives : Bool :=
  !indexes.any fun index => index.deletesRow dataPath p (whole.fieldValue fields p)

end Rows

/-- Of some positions from a first one on those whose rows survive. -/
def survivors (whole : Batch) (fields : List Field) (dataPath : String)
    (indexes : List DeleteIndex) (start count : Nat) : List Nat :=
  (List.range' start count).filter fun p => whole.survives fields p dataPath indexes

/-- A file can be read and filtered to the end: its columns have different names, its days can be
named, and its rows make keys unless their positions are deleted.  Keys are made of some fields at
least. -/
structure IsReadable (whole : Batch) (fields : List Field) (dataPath : String)
    (indexes : List DeleteIndex) : Prop where
  distinct : (fields.map (·.name)).Nodup
  named : ∀ g ∈ fields, g.name ≠ ""
  dated : ∀ p < whole.size, (whole.recordAt p).all (Value.every Scalar.isDated) = true
  keyed : ∀ p < whole.size,
    (∀ index ∈ indexes, (index.vector? dataPath).any (·.isDeleted p) = false) →
      ∀ index ∈ indexes, HasKey index.fieldIds (whole.fieldValue fields p)
  identified : ∀ index ∈ indexes, index.isPosition = false → index.fieldIds ≠ []

/-- A batch is the rows of a file from a position on. -/
structure IsPartOf (b whole : Batch) (start : Nat) : Prop where
  header : b.header = whole.header
  rows : ∃ before behind, whole.rows = before ++ b.rows ++ behind ∧ before.length = start

variable {whole b : Batch} {fields : List Field} {start p : Nat}

/-- A batch without rows has no records, even if it has no columns either. -/
theorem decoded_eq_ok_of_columns (hnames : b.recordNames.Nodup)
    (hcolumns : b.header = [] → b.rows = []) :
    b.decoded = .ok (b.rows.map (recordOf b.header)) := by
  by_cases hnone : b.header = []
  · rw [decoded, if_pos hnames, if_pos (by simp [hnone]), hcolumns hnone]
    rfl
  · exact decoded_eq_ok hnames hnone

theorem length_recordAt (hwhole : whole.LaidOut fields) (hp : p < whole.size) :
    (whole.recordAt p).length = whole.header.length := by
  refine length_recordOf (hwhole.width _ ?_)
  rw [List.getD_eq_getElem _ _ hp]
  exact List.getElem_mem hp

theorem hasFields_rowAt (hwhole : whole.LaidOut fields) (hp : p < whole.size) :
    (whole.rowAt p).HasFields fields (whole.fieldValue fields p) := by
  intro id place hplace
  obtain ⟨hlt, -⟩ := Field.of_positionOf?_eq_some hplace
  rw [rowAt, RecordIterator.rowOf_get (length_recordAt hwhole hp)
    (hwhole.length_header ▸ hlt) hwhole.addressable, fieldValue, hplace]

namespace IsPartOf

theorem end_le (hpart : b.IsPartOf whole start) : start + b.size ≤ whole.size := by
  obtain ⟨before, behind, hrows, rfl⟩ := hpart.rows
  rw [Batch.size, Batch.size, hrows, List.length_append, List.length_append]
  omega

theorem rows_eq_nil (hpart : b.IsPartOf whole start)
    (hcolumns : whole.header = [] → whole.rows = []) (hnone : b.header = []) : b.rows = [] := by
  obtain ⟨before, behind, hrows, -⟩ := hpart.rows
  rw [hcolumns (hpart.header ▸ hnone)] at hrows
  simpa using (List.append_eq_nil_iff.1 (List.append_eq_nil_iff.1 hrows.symm).1).2

theorem getD_rows (hpart : b.IsPartOf whole start) {i : Nat} (hi : i < b.size) :
    b.rows.getD i [] = whole.rows.getD (start + i) [] := by
  obtain ⟨before, behind, hrows, rfl⟩ := hpart.rows
  rw [hrows, List.append_assoc, List.getD_append_right _ _ _ _ (Nat.le_add_right ..),
    Nat.add_sub_cancel_left, List.getD_append _ _ _ _ hi]

theorem laidOut (hpart : b.IsPartOf whole start) (hwhole : whole.LaidOut fields) :
    b.LaidOut fields := by
  obtain ⟨before, behind, hrows, -⟩ := hpart.rows
  refine ⟨hpart.header ▸ hwhole.header, fun row hrow => ?_, hpart.header ▸ hwhole.addressable⟩
  rw [hpart.header]
  exact hwhole.width row (by simp [hrows, hrow])

/-- The records of a batch are those of its positions in the file. -/
theorem map_recordOf (hpart : b.IsPartOf whole start) :
    b.rows.map (recordOf b.header) = (List.range' start b.size).map whole.recordAt := by
  refine List.ext_getElem (by simp [Batch.size]) fun i h₁ h₂ => ?_
  have hi : i < b.size := by simpa [Batch.size] using h₁
  have hrow := hpart.getD_rows hi
  rw [List.getD_eq_getElem _ _ hi] at hrow
  simp only [List.getElem_map, List.getElem_range', Nat.one_mul, recordAt, hpart.header]
  exact congrArg _ hrow

variable {dataPath : String} {indexes : List DeleteIndex}

theorem named_header (hpart : b.IsPartOf whole start) (hwhole : whole.LaidOut fields)
    (hread : whole.IsReadable fields dataPath indexes) :
    b.names.Nodup ∧ ∀ h ∈ b.header, h.name ≠ "" := by
  have hnames := (hpart.laidOut hwhole).names_eq
  refine ⟨hnames ▸ hread.distinct, fun h hh => ?_⟩
  have hmem : h.name ∈ fields.map (·.name) := hnames ▸ List.mem_map_of_mem hh
  obtain ⟨g, hg, hname⟩ := List.mem_map.1 hmem
  exact hname ▸ hread.named g hg

/-- Every batch of a file that can be read has its records. -/
theorem records_eq_ok (hpart : b.IsPartOf whole start) (hwhole : whole.LaidOut fields)
    (hcolumns : whole.header = [] → whole.rows = [])
    (hread : whole.IsReadable fields dataPath indexes) :
    b.records = .ok ((List.range' start b.size).map whole.recordAt) := by
  obtain ⟨hdistinct, hnamed⟩ := hpart.named_header hwhole hread
  have hnames : b.recordNames.Nodup := (recordNames_of_named hnamed).symm ▸ hdistinct
  refine records_eq_ok_iff.2 ⟨?_, List.all_eq_true.2 fun record hrecord => ?_⟩
  · rw [← hpart.map_recordOf]
    exact decoded_eq_ok_of_columns hnames fun hnone => hpart.rows_eq_nil hcolumns hnone
  · obtain ⟨p, hp, rfl⟩ := List.mem_map.1 hrecord
    have := (List.mem_range'_1.1 hp).2
    exact hread.dated p (by have := hpart.end_le; omega)

/-- The records of a batch as far as they can be made are those of its first rows, and of all rows
unless an error ends them. -/
theorem exists_recordBlocks_eq (hpart : b.IsPartOf whole start) (hwhole : whole.LaidOut fields)
    (hcolumns : whole.header = [] → whole.rows = []) {records : List (List Value)}
    {failure : Option Error} (h : b.recordBlocks = .ok (records, failure)) :
    ∃ count ≤ b.size, records = (List.range' start count).map whole.recordAt ∧
      (failure = none → count = b.size) ∧
      (whole.IsReadable fields dataPath indexes → failure = none) := by
  obtain ⟨rows, hdecoded, h⟩ := bind_eq_ok_iff.1 h
  have hrows := decoded_eq_ok_of_columns (nodup_recordNames_of_decoded hdecoded)
    fun hnone => hpart.rows_eq_nil hcolumns hnone
  rw [hpart.map_recordOf] at hrows
  obtain rfl := Except.ok.inj (hdecoded.symm.trans hrows)
  split at h
  · cases h
    exact ⟨b.size, Nat.le_refl _, rfl, fun _ => rfl, fun _ => rfl⟩
  · rename_i hundated
    cases h
    have hbegins := List.IsPrefix.flatten (List.takeWhile_prefix areDated
      (l := chunks blockSize ((List.range' start b.size).map whole.recordAt)))
    rw [flatten_chunks] at hbegins
    obtain ⟨count, hcount, heq⟩ := exists_eq_map_range'_of_prefix hbegins
    refine ⟨count, hcount, heq, nofun, fun hread => ?_⟩
    exact absurd (records_eq_ok_iff.1 (hpart.records_eq_ok hwhole hcolumns hread)).2 hundated

end IsPartOf

end Batch

namespace DeleteFilter

open Batch

variable {file : DataFile} {indexes : List DeleteIndex} {fields : List Field} {check : Bool}
  {f : DeleteFilter} {whole b c : Batch} {start p : Nat}

/-! ## What a filter says of a row -/

/-- A row survives when neither its position nor the key of some group is deleted. -/
theorem survives_eq (hcreate : create file indexes fields check = .ok f) :
    whole.survives fields p file.path indexes =
      (!f.positionDeleted p && !f.groups.any fun g =>
        g.keys.holdsKeyOf g.fieldIds (whole.fieldValue fields p)) := by
  rw [survives, ← Bool.not_or, Bool.not_eq_eq_eq_not, Bool.not_not, Bool.eq_iff_iff,
    Bool.or_eq_true, List.any_eq_true, List.any_eq_true, positionDeleted_iff hcreate,
    exists_group_iff hcreate, ← exists_or]
  refine exists_congr fun index => ?_
  rw [deletesRow_iff, and_or_left]

theorem eq_survives_of_isDeleted (hcreate : create file indexes fields check = .ok f)
    (hwhole : whole.LaidOut fields) (hp : p < whole.size) {deleted : Bool}
    (h : f.isDeleted p (whole.rowAt p) = .ok deleted) :
    deleted = !whole.survives fields p file.path indexes := by
  rw [survives, Bool.not_not]
  exact isDeleted_eq_of_ok hcreate (hasFields_rowAt hwhole hp) h

/-- A filter has an answer about every row of a file that can be read. -/
theorem isDeleted_eq_survives (hcreate : create file indexes fields check = .ok f)
    (hwhole : whole.LaidOut fields) (hread : whole.IsReadable fields file.path indexes)
    (hp : p < whole.size) :
    f.isDeleted p (whole.rowAt p) = .ok (!whole.survives fields p file.path indexes) := by
  rw [survives, Bool.not_not]
  exact isDeleted_eq hcreate (hasFields_rowAt hwhole hp) (hread.keyed p hp)

/-! ## What a filter leaves of a batch -/

/-- Where the groups answer about the key columns of a row, they say whether some group has its
key. -/
theorem eq_any_of_keyDeleted (hcreate : create file indexes fields check = .ok f)
    (hwhole : whole.LaidOut fields) (hp : p < whole.size) {deleted : Bool}
    (h : keyDeleted f.keyColumns (pick f.keyColumns (whole.recordAt p)) f.groups = .ok deleted) :
    deleted = f.groups.any fun g => g.keys.holdsKeyOf g.fieldIds (whole.fieldValue fields p) := by
  have hlength := length_recordAt hwhole hp
  rw [← groupsDelete_rowOf (hlength ▸ hwhole.addressable)
    (fun g hg place hplace => mem_keyColumns.2 ⟨g, hg, hplace⟩)
    fun g hg place hplace => by
      rw [hlength, hwhole.length_header]
      exact lt_of_mem_places hcreate hg hplace, hlength] at h
  exact groupsDelete_eq_of_ok
    (fun g hg => mapM_places_eq hcreate (hasFields_rowAt hwhole hp) hg) h

/-- The key columns of a batch that have records have those of its positions in the file. -/
theorem records_keyColumns_of_isPartOf (hcreate : create file indexes fields check = .ok f)
    (hwhole : whole.LaidOut fields) (hpart : b.IsPartOf whole start) {records : List (List Value)}
    (hne : f.keyColumns ≠ [])
    (h : ({ header := pick f.keyColumns b.header,
            rows := b.rows.map (pick f.keyColumns) } : Batch).decoded = .ok records) :
    records = (List.range' start b.size).map fun p => pick f.keyColumns (whole.recordAt p) := by
  have hb := hpart.laidOut hwhole
  have hlt : ∀ place ∈ f.keyColumns, place < b.header.length := by
    intro place hplace
    rw [hb.length_header]
    exact lt_of_mem_keyColumns hcreate hplace
  rw [decoded_eq_ok (nodup_recordNames_of_decoded h) (by simpa [pick] using hne)] at h
  rw [← Except.ok.inj h, List.map_map]
  calc b.rows.map (recordOf (pick f.keyColumns b.header) ∘ pick f.keyColumns)
      _ = b.rows.map (pick f.keyColumns ∘ recordOf b.header) :=
        List.map_congr_left fun row hrow => recordOf_pick (hb.width row hrow) hlt
      _ = _ := by rw [← List.map_map, hpart.map_recordOf, List.map_map]; rfl

/-- The numbers that stay are those of the rows that survive. -/
theorem eq_of_survivingRows (hcreate : create file indexes fields check = .ok f)
    (hwhole : whole.LaidOut fields) (hpart : b.IsPartOf whole start)
    (hlimit : start + b.size ≤ positionLimit) {numbers : List Nat}
    (h : f.survivingRows b start = .ok numbers) :
    numbers = (List.range b.size).filter fun i =>
      whole.survives fields (start + i) file.path indexes := by
  have hb := hpart.laidOut hwhole
  have hfirst : f.undeletedPositions start b.size = _ :=
    undeletedPositions_eq (Int.natCast_nonneg start) (by exact_mod_cast hlimit)
  rw [survivingRows, hfirst, ok_bind] at h
  generalize hkept : (List.range b.size).filter (fun (i : Nat) =>
    !f.positionDeleted ((start : Int) + i)) = kept at h
  have hlt : ∀ i ∈ kept, i < b.size := fun i hi =>
    List.mem_range.1 (List.mem_filter.1 (hkept ▸ hi)).1
  -- It remains to be seen that of those rows the ones stay whose key is in no group.
  suffices hnumbers : numbers = kept.filter fun i => !f.groups.any fun g =>
      g.keys.holdsKeyOf g.fieldIds (whole.fieldValue fields (start + i)) by
    rw [hnumbers, ← hkept, List.filter_filter]
    refine List.filter_congr fun i _ => ?_
    rw [survives_eq hcreate, Bool.and_comm, Nat.cast_add]
  split at h
  · rename_i hnone
    rw [← Except.ok.inj h]
    rcases Bool.or_eq_true_iff.1 hnone with hgroups | hempty
    · simp [List.isEmpty_iff.1 hgroups]
    · simp [List.isEmpty_iff.1 hempty]
  · rename_i hsome
    have hplaces : ∀ place ∈ f.keyColumns, place < b.header.length := by
      intro place hplace
      rw [hb.length_header]
      exact lt_of_mem_keyColumns hcreate hplace
    rw [select_eq_ok hplaces hb.addressable, ok_bind] at h
    obtain ⟨records, hrecords, hlive⟩ := bind_eq_ok_iff.1 h
    obtain ⟨hdecoded, -⟩ := records_eq_ok_iff.1 hrecords
    have hrecords := records_keyColumns_of_isPartOf hcreate hwhole hpart
      (Follows.keyColumns_ne_nil_of_keepLive hsome hdecoded hlive) hdecoded
    have hfound : ∀ i ∈ kept, records.toArray[i]? =
        some (pick f.keyColumns (whole.recordAt (start + i))) := by
      intro i hi
      simp [hrecords, hlt i hi]
    rw [keepLive_eq_filterM hfound, liftError_eq_ok_iff] at hlive
    refine eq_filter_of_filterM_eq_ok hlive fun i hi passes hpasses => ?_
    obtain ⟨deleted, hdeleted, rfl⟩ := map_eq_ok_iff.1 hpasses
    have hp : start + i < whole.size := by
      have := hpart.end_le
      have := hlt i hi
      omega
    rw [eq_any_of_keyDeleted hcreate hwhole hp hdeleted]

/-- A batch that can be filtered keeps the rows that survive. -/
theorem apply_eq_survivors (hcreate : create file indexes fields check = .ok f)
    (hwhole : whole.LaidOut fields) (hpart : b.IsPartOf whole start)
    (hlimit : start + b.size ≤ positionLimit) (happly : f.apply b start = .ok c) :
    c.header = whole.header ∧ c.rows =
      (whole.survivors fields file.path indexes start b.size).map fun p =>
        whole.rows.getD p [] := by
  have hrows : ∀ numbers : List Nat, numbers = ((List.range b.size).filter fun i =>
      whole.survives fields (start + i) file.path indexes) →
        numbers.map (fun i => b.rows.getD i []) =
          (whole.survivors fields file.path indexes start b.size).map fun p =>
            whole.rows.getD p [] := by
    rintro numbers rfl
    rw [survivors, List.range'_eq_map_range, List.filter_map, List.map_map]
    refine List.map_congr_left fun i hi => ?_
    exact hpart.getD_rows (List.mem_range.1 (List.mem_filter.1 hi).1)
  rw [DeleteFilter.apply] at happly
  split at happly
  · rename_i hidle
    -- Without rows or without deletes, all rows survive.
    cases happly
    refine ⟨hpart.header, ?_⟩
    rw [← hrows (List.range b.size) ?_]
    · exact (map_range_getD b.rows).symm
    · refine (List.filter_eq_self.2 fun i hi => ?_).symm
      rcases Bool.or_eq_true_iff.1 hidle with hempty | hnone
      · rw [of_decide_eq_true hempty] at hi
        cases hi
      · obtain ⟨hpositions, hgroups⟩ : f.positions = none ∧ f.groups = [] := by
          simpa [hasDeletes] using hnone
        simp [survives_eq hcreate, positionDeleted, hpositions, hgroups]
  · obtain ⟨numbers, hsurvive, happly⟩ := bind_eq_ok_iff.1 happly
    have hnumbers := eq_of_survivingRows hcreate hwhole hpart hlimit hsurvive
    have hsublist : numbers.Sublist (List.range b.size) := hnumbers ▸ List.filter_sublist
    rw [← apply_ite Except.ok, Except.ok.injEq] at happly
    subst happly
    refine ⟨Eq.trans (by split <;> rfl) hpart.header, ?_⟩
    rw [rows_of_kept hsublist, hrows numbers hnumbers]

/-- Every batch of a file that can be read can be filtered. -/
theorem exists_apply_eq_ok (hcreate : create file indexes fields check = .ok f)
    (hwhole : whole.LaidOut fields) (hcolumns : whole.header = [] → whole.rows = [])
    (hread : whole.IsReadable fields file.path indexes) (hpart : b.IsPartOf whole start)
    (hlimit : start + b.size ≤ positionLimit) : ∃ c, f.apply b start = .ok c := by
  have hb := hpart.laidOut hwhole
  obtain ⟨-, hnamed⟩ := hpart.named_header hwhole hread
  have hrecords := hpart.records_eq_ok hwhole hcolumns hread
  have hpicked : f.groups ≠ [] →
      ∀ c, b.select (f.keyColumns.map fun (i : Nat) => (i : Int)) = .ok c →
        c.records = .ok (((List.range' start b.size).map whole.recordAt).map
          (pick f.keyColumns)) := by
    intro hgroups c hselect
    refine decodesByColumn_of_named hnamed hb.width hb.addressable _ f.keyColumns c hrecords
      (keyColumns_ne_nil hcreate hread.identified hgroups) f.nodup_keyColumns
      (fun place hplace => ?_) hselect
    rw [hb.length_header]
    exact lt_of_mem_keyColumns hcreate hplace
  rw [apply_eq_of_passing hcreate hb (Int.natCast_nonneg start)
    (.inr (by exact_mod_cast hlimit)) hrecords (by simp) hpicked]
  have hpassing : f.passing start (fun i => RecordIterator.rowOf b.header.length
      (((List.range' start b.size).map whole.recordAt).getD i [])) b.size =
        .ok ((List.range b.size).filter fun i =>
          whole.survives fields (start + i) file.path indexes) := by
    refine filterM_eq_ok_filter fun i hi => ?_
    have hlt := List.mem_range.1 hi
    have hrow : RecordIterator.rowOf b.header.length
        (((List.range' start b.size).map whole.recordAt).getD i []) = whole.rowAt (start + i) := by
      rw [List.getD_eq_getElem _ _ (by simpa using hlt), rowAt, hpart.header]
      simp
    have hend := hpart.end_le
    simp only [test, hrow]
    rw [← Nat.cast_add, isDeleted_eq_survives hcreate hwhole hread (p := start + i) (by omega)]
    exact congrArg _ (Bool.not_not _)
  rw [hpassing]
  exact ⟨_, rfl⟩

end DeleteFilter

end MergeOnRead
