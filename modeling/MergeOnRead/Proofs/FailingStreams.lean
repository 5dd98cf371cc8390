import MergeOnRead.Proofs.ReadPaths

/-!
# Streams that fail

A source may fail at any batch of a stream, a batch may not be converted, and a filter may fail at
any row.  Rows and batches of a reader then fail alike: with the same error, and the rows that were
handed out before it begin the rows that no index deletes (`Scan.Layers.Over.drains_or_fails`,
`Scan.Layers.Over.prefix_of_fails`).

Strategy:

* `StoredRows.Begins`: a stream hands out the stored rows in order, as far as no batch fails;
* `Scan.Layers.Fails`: how reading on from a position fails.  `rowsWithin_of_fails` and
  `batchesWithin_of_fails` say what is read until then;
* `DeleteFilter.apply_eq_of_passing`: a batch is filtered as its rows are asked one by one, errors
  included.  For this its key columns need records of their own (`StoredRows.IsRecorded`).
-/

namespace MergeOnRead

/-! ## Filtering a batch -/

theorem Batch.LaidOut.names_eq {b : Batch} {fields : List Field} (hb : b.LaidOut fields) :
    b.names = fields.map (·.name) := by
  have hforall := Field.headers_eq_ok hb.header
  rw [Batch.names, ← List.forall₂_eq_eq_eq, List.forall₂_map_left_iff, List.forall₂_map_right_iff]
  exact hforall.flip.imp fun _ _ hname => hname.1

namespace DeleteFilter

variable {file : DataFile} {indexes : List DeleteIndex} {fields : List Field} {check : Bool}
  {f : DeleteFilter} {b c : Batch} {start : Int} {records : List (List Value)}

/-- The places of the key columns stand in order. -/
theorem pairwise_keyColumns (f : DeleteFilter) : f.keyColumns.Pairwise (· < ·) := by
  have hsorted : f.keyColumns.Pairwise (· ≤ ·) :=
    (List.pairwise_mergeSort' (· ≤ ·) (f.groups.flatMap (·.places))).sublist
      (eraseDups_sublist _)
  exact (hsorted.and f.nodup_keyColumns).imp fun ⟨hle, hne⟩ => Nat.lt_of_le_of_ne hle hne

/-- The key columns are those of the fields whose ids some index has. -/
theorem mem_keyColumns_iff (hcreate : create file indexes fields check = .ok f)
    (hids : (fields.map (·.id)).Nodup) {place : Nat} :
    place ∈ f.keyColumns ↔ ∃ hlt : place < fields.length,
      fields[place].id ∈ indexes.flatMap (·.fieldIds) := by
  rw [mem_keyColumns]
  constructor
  · rintro ⟨g, hg, hplace⟩
    obtain ⟨hgroup, hplaces⟩ := (mem_groups_iff hcreate).1 hg
    obtain ⟨index, hindex, -, (hsame : index.fieldIds = g.fieldIds)⟩ :=
      mem_ids_groupKeys.1 (List.mem_map_of_mem (f := (·.1)) hgroup)
    obtain ⟨id, hid, hposition⟩ :=
      exists_mem_of_forall₂ (Field.positionsOf_eq_ok_iff.1 hplaces) hplace
    obtain ⟨hlt, rfl⟩ := Field.of_positionOf?_eq_some hposition
    exact ⟨hlt, List.mem_flatMap.2 ⟨index, hindex, hsame ▸ hid⟩⟩
  · rintro ⟨hlt, hmem⟩
    obtain ⟨index, hindex, hid⟩ := List.mem_flatMap.1 hmem
    have hequality : index.isPosition = false := by
      cases index with
      | positions path vectors => cases hid
      | equalities path ids keys => rfl
    obtain ⟨group, hgroup, hsame⟩ :=
      List.mem_map.1 (mem_ids_groupKeys.2 ⟨index, hindex, hequality, rfl⟩)
    obtain ⟨g, hg, hfieldIds, -⟩ := exists_mem_groups hcreate hgroup
    have hplaces := Field.positionsOf_eq_ok_iff.1 ((mem_groups_iff hcreate).1 hg).2
    rw [← hsame, ← hfieldIds] at hid
    obtain ⟨i, hi, hposition⟩ := exists_mem_of_forall₂ hplaces.flip hid
    obtain rfl := Option.some.inj
      (hposition.symm.trans ((Field.positionOf?_eq_some_iff hids).2 ⟨hlt, rfl⟩))
    exact ⟨g, hg, hi⟩

/-- The key columns of a batch have records if their names in records are different ones. -/
theorem records_of_keyNames (hcreate : create file indexes fields check = .ok f)
    (hids : (fields.map (·.id)).Nodup)
    (hnames : (Field.recordNames (fields.filter fun g =>
      g.id ∈ indexes.flatMap (·.fieldIds))).Nodup)
    (hb : b.LaidOut fields) (hrecords : b.records = .ok records) (hne : f.keyColumns ≠ [])
    (hselect : b.select (f.keyColumns.map fun (i : Nat) => (i : Int)) = .ok c) :
    c.records = .ok (records.map (Batch.pick f.keyColumns)) := by
  have hlt : ∀ place ∈ f.keyColumns, place < b.header.length := by
    intro place hplace
    rw [hb.length_header]
    exact lt_of_mem_keyColumns hcreate hplace
  refine Batch.records_of_select hrecords hne hb.width hb.addressable hlt hselect ?_
  have hpicked : c.names = (fields.filter fun g => g.id ∈ indexes.flatMap (·.fieldIds)).map
      (·.name) := by
    rw [Batch.select_eq_ok hlt hb.addressable] at hselect
    cases hselect
    rw [← map_getD_of_ascending (d := "") f.pairwise_keyColumns fun i => ?_]
    · rw [← hb.names_eq, Batch.names, Batch.pick, List.map_map]
      refine List.map_congr_left fun i hi => ?_
      simp [Batch.names, List.getD_eq_getElem?_getD, hlt i hi]
    · simpa using mem_keyColumns_iff hcreate hids
  rwa [Batch.recordNames_eq hpicked]

/-- A batch is filtered as its rows are asked one by one. -/
theorem apply_eq_of_passing (hcreate : create file indexes fields check = .ok f)
    (hb : b.LaidOut fields) (hstart : 0 ≤ start) (hreaches : f.Reaches start b.size)
    (hrecords : b.records = .ok records) (hsize : records.length = b.size)
    (hpicked : f.groups ≠ [] → ∀ c, b.select (f.keyColumns.map fun (i : Nat) => (i : Int)) = .ok c →
      c.records = .ok (records.map (Batch.pick f.keyColumns))) :
    f.apply b start =
      (liftError .row (f.passing start
        (fun i => RecordIterator.rowOf b.header.length (records.getD i [])) b.size)).map
          fun numbers => if numbers.length = b.size then b else b.keep numbers := by
  have hsurvive := survivingRows_eq_of_picked hcreate hb
    (undeletedPositions_of_reaches hstart hreaches) hrecords hsize (fun _ _ => rfl)
    fun hgroups _ => hpicked hgroups
  rw [DeleteFilter.apply]
  split
  · rename_i hidle
    -- Without rows or without deletes, all rows pass.
    have hall : f.passing start
        (fun i => RecordIterator.rowOf b.header.length (records.getD i [])) b.size =
          .ok (List.range b.size) := by
      rcases Bool.or_eq_true_iff.1 hidle with hempty | hnone
      · rw [of_decide_eq_true hempty]
        rfl
      · rw [passing, filterM_eq_ok_filter (p := fun _ => true) fun i _ => ?_, List.filter_true]
        rw [test, isDeleted_eq_false (by simpa using hnone)]
        rfl
    rw [hall]
    simp [liftError, Except.map]
  · rw [hsurvive]
    generalize liftError Error.row _ = numbers
    cases numbers with
    | error e => rfl
    | ok numbers => exact (apply_ite Except.ok _ _ _).symm

/-- The first row that cannot be decided is the error. -/
theorem passing_eq_error {row : Nat → Row} {count k : Nat} {e : RowError} (hk : k < count)
    (hbefore : ∀ i < k, ∃ deleted, f.isDeleted (start + (i : Int)) (row i) = .ok deleted)
    (hfail : f.isDeleted (start + (k : Int)) (row k) = .error e) :
    f.passing start row count = .error e := by
  have hrange : List.range count = List.range k ++ k :: List.range' (k + 1) (count - (k + 1)) := by
    have hcount : count = k + (count - (k + 1) + 1) := by omega
    rw [← List.range'_succ, List.range_eq_range', List.range_eq_range']
    conv_lhs => rw [hcount, ← List.range'_append_1, Nat.zero_add]
  rw [passing, hrange]
  refine filterM_eq_error (fun i hi => ?_) (by rw [test, hfail]; rfl)
  obtain ⟨deleted, hdeleted⟩ := hbefore i (List.mem_range.1 hi)
  exact ⟨!deleted, by rw [test, hdeleted]; rfl⟩

end DeleteFilter

/-! ## Rows that begin a stream -/

namespace StoredRows

variable {s : StoredRows} {names : List String} {position : Nat} {stream : BatchStream}

/-- As far as no batch fails, a stream hands out the named columns of the rows from a position on,
in order; without a failure it does so to the end. -/
inductive Begins (s : StoredRows) (names : List String) : Nat → BatchStream → Prop where
  | done : s.Begins names s.count []
  | failed {position : Nat} {e : Error} {rest : BatchStream} (hle : position ≤ s.count) :
      s.Begins names position (.error e :: rest)
  | more {position : Nat} {b : Batch} {rest : BatchStream} (hb : s.Holds names position b)
      (hrest : s.Begins names (position + b.size) rest) : s.Begins names position (.ok b :: rest)

theorem Begins.le_count (h : s.Begins names position stream) : position ≤ s.count := by
  induction h with
  | done => exact Nat.le_refl _
  | failed hle => exact hle
  | more hb hrest ih => omega

theorem Delivers.begins (h : s.Delivers names position stream) :
    s.Begins names position stream := by
  induction h with
  | done => exact .done
  | more hb hrest ih => exact .more hb ih

/-- A stream without a failure delivers the rows. -/
theorem Begins.delivers (h : s.Begins names position stream)
    (hok : ∀ r ∈ stream, ∃ b, r = .ok b) : s.Delivers names position stream := by
  induction h with
  | done => exact .done
  | failed hle =>
      obtain ⟨b, hb⟩ := hok _ (List.mem_cons_self ..)
      cases hb
  | more hb hrest ih => exact .more hb (ih fun r hr => hok r (List.mem_cons_of_mem _ hr))

/-- All rows of a file have records for some fields, and for the key fields alone: the fields keep
different names, and all days can be named. -/
structure IsRecorded (s : StoredRows) (keyIds : List Int) (fileFields all : List Field) : Prop where
  names : (Field.recordNames all).Nodup
  keyNames : (Field.recordNames (all.filter fun f => f.id ∈ keyIds)).Nodup
  dated : ∀ p < s.count, ∀ f ∈ all, (s.cell fileFields p f).every Scalar.isDated = true

end StoredRows

/-! ## Reading on until it fails -/

namespace Scan.Layers

variable (l : Layers)

/-- Reading on from a position fails with an error, behind some rows: because of an item of the
stream, or because of a record that the filter cannot decide. -/
inductive Fails : Nat → BatchStream → List Row → Error → Prop where
  | item {position : Nat} {r : Except Error Batch} {rest : BatchStream} {e : Error} :
      l.conformed r = .error e → Fails position (r :: rest) [] e
  | record {position : Nat} {b c : Batch} {rest : BatchStream} {records : List (List Value)}
      {k : Nat} {e : RowError} (deleted : Nat → Bool) :
      b.conform l.names l.header = .ok c → c.records = .ok records → k < records.length →
        (∀ i < k, l.filter.isDeleted ((position : Int) + i)
          (l.wholeRow (records.getD i [])) = .ok (deleted i)) →
        l.filter.isDeleted ((position : Int) + k) (l.wholeRow (records.getD k [])) = .error e →
        l.finish c position = .error (.row e) →
          Fails position (.ok b :: rest)
            (((List.range k).filter fun i => !deleted i).map fun i =>
              l.shownRow (records.getD i [])) (.row e)
  | more {position : Nat} {b c d : Batch} {rest : BatchStream} {records : List (List Value)}
      {rows : List Row} {e : Error} (deleted : Nat → Bool) :
      b.conform l.names l.header = .ok c → c.records = .ok records →
        (∀ i < records.length, l.filter.isDeleted ((position : Int) + i)
          (l.wholeRow (records.getD i [])) = .ok (deleted i)) →
        l.finish c position = .ok d →
        Fails (position + c.size) rest rows e →
          Fails position (.ok b :: rest)
            ((((List.range records.length).filter fun i => !deleted i).map fun i =>
              l.shownRow (records.getD i [])) ++ rows) e

variable {l} {position : Nat} {stream : BatchStream} {rows : List Row} {e : Error}

/-- Draining stops at the first record that cannot be decided. -/
theorem drainFrom_eq_error {records : List (List Value)} {deleted : Nat → Bool} {k : Nat}
    {e : RowError} (hk : k < records.length)
    (hdecided : ∀ i < k, l.filter.isDeleted ((position : Int) + i)
      (l.wholeRow (records.getD i [])) = .ok (deleted i))
    (hfail : l.filter.isDeleted ((position : Int) + k) (l.wholeRow (records.getD k [])) =
      .error e) :
    ∃ items, (RecordIterator.drainFrom l.header.length l.stages .ok (some ((position : Int) - 1))
        records).1 = (items, some (.row e)) ∧
      items.map (·.2) = ((List.range k).filter fun i => !deleted i).map fun i =>
        l.shownRow (records.getD i []) := by
  have hlength : (records.take k).length = k := by
    rw [List.length_take]
    omega
  have hsame : ∀ i < k, (records.take k).getD i [] = records.getD i [] := by
    intro i hi
    rw [List.getD_eq_getElem?_getD, List.getElem?_take_of_lt hi, List.getD_eq_getElem?_getD]
  have hbefore : ∀ i < (records.take k).length, l.filter.isDeleted ((position : Int) + i)
      (l.wholeRow ((records.take k).getD i [])) = .ok (deleted i) := by
    intro i hi
    rw [hlength] at hi
    rw [hsame i hi]
    exact hdecided i hi
  obtain ⟨items, hitems, hrows⟩ := exists_drainFrom hbefore
  have hlast : (RecordIterator.drainFrom l.header.length l.stages .ok
      (some ((position : Int) - 1 + (records.take k).length))
      (records[k] :: records.drop (k + 1))).1 = ([], some (.row e)) := by
    have hposition : RecordIterator.following
        (some ((position : Int) - 1 + (records.take k).length)) = some ((position : Int) + k) := by
      rw [hlength, RecordIterator.following, Option.map_some]
      congr 1
      omega
    have hrecord : RecordIterator.pass (some ((position : Int) + k)) l.stages
        (RecordIterator.rowOf l.header.length records[k]) = .error (.row e) := by
      rw [← List.getD_eq_getElem records [] hk]
      refine (l.pass_stages _ _).trans ?_
      rw [hfail]
      rfl
    rw [RecordIterator.drainFrom, hposition, hrecord]
  refine ⟨items, ?_, ?_⟩
  · conv_lhs => rw [← List.take_append_drop k records, List.drop_eq_getElem_cons hk]
    rw [RecordIterator.drainFrom_append hitems, hlast, List.append_nil]
  · rw [hrows, hlength]
    refine List.map_congr_left fun i hi => ?_
    rw [hsame i (List.mem_range.1 (List.mem_filter.1 hi).1)]

/-- Reading rows on ends with the error, behind the rows. -/
theorem rowsWithin_of_fails (h : l.Fails position stream rows e) :
    (l.reader position stream).rowsWithin stream.length = (rows, some e) := by
  induction h with
  | item hitem =>
      rw [List.length_cons, Reader.rowsWithin, readRecords_reader]
      simp only [hitem]
  | @record position b c rest records k e deleted hconform hrecords hk hdecided hfail hfinish =>
      have hheader := Batch.header_of_conform hconform
      have hc : l.conformed (.ok b) = .ok c := (conformed_eq_ok_iff _).2 ⟨b, rfl, hconform⟩
      obtain ⟨items, hitems, hrows⟩ := drainFrom_eq_error hk hdecided hfail
      have hdrain : ((⟨l.header.length, records, none, some ((position : Int) - 1), l.stages⟩ :
          RecordIterator).drain .ok).1 = (items, some (.row e)) :=
        RecordIterator.drain_eq_error hitems
      rw [List.length_cons, Reader.rowsWithin, readRecords_reader]
      simp only [hc, Batch.iterate_of_records hrecords, Except.map, Option.map_some,
        List.nil_append, hheader, hdrain, hrows]
  | @more position b c d rest records rows e deleted hconform hrecords hdecided hfinish hrest ih =>
      have hheader := Batch.header_of_conform hconform
      have hc : l.conformed (.ok b) = .ok c := (conformed_eq_ok_iff _).2 ⟨b, rfl, hconform⟩
      obtain ⟨items, hitems, hrows⟩ := exists_drainFrom hdecided
      have hdrain : ((⟨l.header.length, records, none, some ((position : Int) - 1), l.stages⟩ :
          RecordIterator).drain .ok).1 = (items, none) :=
        RecordIterator.drain_eq_iff.2 ⟨rfl, hitems⟩
      rw [List.length_cons, Reader.rowsWithin, readRecords_reader]
      simp only [hc, Batch.iterate_of_records hrecords, Except.map, Option.map_some,
        List.nil_append, hheader, hdrain, ih, hrows]

/-- Reading batches on ends with the same error. -/
theorem batchesWithin_of_fails (h : l.Fails position stream rows e) :
    ∃ ds, (l.reader position stream).batchesWithin stream.length = (ds, some e) := by
  induction h with
  | item hitem =>
      refine ⟨[], ?_⟩
      rw [List.length_cons, Reader.batchesWithin, readBatch_reader]
      simp only [hitem]
  | record deleted hconform hrecords hk hdecided hfail hfinish =>
      refine ⟨[], ?_⟩
      rw [List.length_cons, Reader.batchesWithin, readBatch_reader,
        (conformed_eq_ok_iff _).2 ⟨_, rfl, hconform⟩]
      simp only [hfinish, Except.map]
  | @more position b c d rest records rows e deleted hconform hrecords hdecided hfinish hrest ih =>
      obtain ⟨ds, hds⟩ := ih
      refine ⟨d :: ds, ?_⟩
      rw [List.length_cons, Reader.batchesWithin, readBatch_reader,
        (conformed_eq_ok_iff _).2 ⟨_, rfl, hconform⟩]
      simp only [hfinish, Except.map, hds]

namespace Over

variable {s : StoredRows} {schema : TableSchema} {file : DataFile} {indexes : List DeleteIndex}
  {fileFields fields hidden : List Field} {columns : List String} {b c : Batch}
  (h : l.Over s schema file indexes fileFields fields hidden columns)
include h

/-- A conformed batch has the records of its rows. -/
theorem records_eq_ok {keyIds : List Int}
    (hrecorded : s.IsRecorded keyIds fileFields (fields ++ hidden))
    (hb : s.Holds columns position b) (hend : position + b.size ≤ s.count)
    (hconform : b.conform l.names l.header = .ok c) :
    c.records = .ok ((List.range b.size).map fun i =>
      s.cells fileFields (fields ++ hidden) (position + i)) := by
  have hheader := Batch.header_of_conform hconform
  obtain ⟨-, hcells⟩ := h.records_of_conform hb hconform
  have hnames : c.recordNames.Nodup := by
    rw [Batch.recordNames_eq (h.laidOut_of_conform hconform).names_eq]
    exact hrecorded.names
  refine Batch.records_eq_ok_iff.2 ⟨?_, ?_⟩
  · rw [Batch.decoded_eq_ok hnames (hheader ▸ h.header_ne_nil), hheader, hcells]
  · simp only [Batch.areDated, List.all_map, List.all_eq_true, Function.comp_apply, List.mem_range,
      StoredRows.cells]
    exact fun i hi f hf => hrecorded.dated _ (by omega) f hf

section Steps

variable (hids : ((fields ++ hidden).map (·.id)).Nodup)
  (hkeyed : ∀ index ∈ indexes, index.isPosition = false → index.fieldIds ≠ [])
  (hrecorded : s.IsRecorded (indexes.flatMap (·.fieldIds)) fileFields (fields ++ hidden))
include hids hkeyed hrecorded

/-- What becomes of a batch depends on whether its rows can be asked one by one. -/
theorem finish_of_passing (hb : s.Holds columns position b) (hend : position + b.size ≤ s.count)
    (hconform : b.conform l.names l.header = .ok c) {records : List (List Value)}
    (hrecords : c.records = .ok records) :
    (∀ numbers, l.filter.passing position (fun i => l.wholeRow (records.getD i [])) records.length =
        .ok numbers → ∃ d, l.finish c position = .ok d) ∧
      ∀ e, l.filter.passing position (fun i => l.wholeRow (records.getD i [])) records.length =
        .error e → l.finish c position = .error (.row e) := by
  obtain ⟨check, hcreate⟩ := h.filter
  have hlaid := h.laidOut_of_conform hconform
  have hheader := Batch.header_of_conform hconform
  obtain ⟨hsize, -⟩ := h.records_of_conform hb hconform
  obtain ⟨-, hlength, -⟩ := h.getD_records hb hconform hrecords
  have hreaches : l.filter.Reaches position c.size :=
    h.reaches.imp id fun hle => by rw [hsize]; omega
  have happly := DeleteFilter.apply_eq_of_passing hcreate hlaid (Int.natCast_nonneg position)
    hreaches hrecords (hlength.trans hsize.symm) fun hgroups keys hselect =>
      DeleteFilter.records_of_keyNames hcreate hids hrecorded.keyNames hlaid hrecords
        (DeleteFilter.keyColumns_ne_nil hcreate hkeyed hgroups) hselect
  rw [hheader, hsize, ← hlength] at happly
  constructor
  · intro numbers hpassing
    have hkept : ∃ kept, l.filter.apply c position = .ok kept ∧ kept.header = l.header := by
      refine ⟨_, happly.trans (congrArg _ (congrArg _ hpassing)), ?_⟩
      dsimp only
      split <;> exact hheader
    obtain ⟨kept, hkept, hsame⟩ := hkept
    rw [finish, hkept, ok_bind]
    split
    · exact ⟨_, rfl⟩
    · refine ⟨_, Batch.select_eq_ok (fun i hi => ?_) ?_⟩
      · rw [hsame, h.length_header, List.length_append]
        rw [h.asked, List.mem_range] at hi
        omega
      · rw [hsame, h.length_header]
        exact h.addressable
  · intro e hpassing
    rw [finish, happly.trans (congrArg _ (congrArg _ hpassing))]
    rfl

/-- **Rows and batches fail alike.**  Either both are read to the end, or both fail with the same
error. -/
theorem drains_or_fails (hstream : s.Begins columns position stream) :
    (∃ rows ds, l.Drains position stream rows ∧ l.Reads position stream ds) ∨
      ∃ rows e, l.Fails position stream rows e := by
  induction hstream with
  | done => exact .inl ⟨[], [], .done, .done⟩
  | failed hle => exact .inr ⟨[], _, .item rfl⟩
  | @more position b rest hb hrest ih =>
      cases hconform : b.conform l.names l.header with
      | error e =>
          refine .inr ⟨[], BatchStream.report l.path e, .item ?_⟩
          rw [conformed, ok_bind, hconform]
          rfl
      | ok c =>
          obtain ⟨hsize, -⟩ := h.records_of_conform hb hconform
          have hrecords := h.records_eq_ok hrecorded hb hrest.le_count hconform
          generalize (List.range b.size).map _ = records at hrecords
          obtain ⟨hpasses, hstops⟩ :=
            h.finish_of_passing hids hkeyed hrecorded hb hrest.le_count hconform hrecords
          rcases forall_ok_or_first_error (fun i => l.filter.isDeleted ((position : Int) + i)
            (l.wholeRow (records.getD i []))) records.length with hall | ⟨k, hk, hbefore, e, hfail⟩
          · choose! deleted hdecided using hall
            have hpassing : l.filter.passing position (fun i => l.wholeRow (records.getD i []))
                records.length = .ok ((List.range records.length).filter fun i => !deleted i) := by
              refine filterM_eq_ok_filter fun i hi => ?_
              rw [DeleteFilter.test, hdecided i (List.mem_range.1 hi)]
              rfl
            obtain ⟨d, hfinish⟩ := hpasses _ hpassing
            rcases ih with ⟨rows, ds, hdrains, hreads⟩ | ⟨rows, e, hfails⟩
            · exact .inl ⟨_, d :: ds, .more deleted hconform hrecords hdecided (hsize ▸ hdrains),
                .more hconform hfinish (hsize ▸ hreads)⟩
            · exact .inr ⟨_, e, .more deleted hconform hrecords hdecided hfinish (hsize ▸ hfails)⟩
          · have hstop := hstops e (DeleteFilter.passing_eq_error hk hbefore hfail)
            choose! deleted hdecided using hbefore
            exact .inr ⟨_, _, .record deleted hconform hrecords hk hdecided hfail hstop⟩

end Steps

/-- The rows before a failure begin the rows that no index deletes. -/
theorem prefix_of_fails (hstream : s.Begins columns position stream)
    (hfails : l.Fails position stream rows e) :
    ∃ live, rows.map Row.toList = live.map .ok ∧
      live <+: (s.liveFrom indexes file.path schema fileFields position).map
        (s.cells fileFields fields) := by
  induction hstream generalizing rows with
  | done => cases hfails
  | failed hle =>
      cases hfails
      exact ⟨[], rfl, List.nil_prefix⟩
  | @more position b rest hb hrest ih =>
      cases hfails with
      | item hitem => exact ⟨[], rfl, List.nil_prefix⟩
      | @record _ _ c _ records k e deleted hconform hrecords hk hdecided hfail hfinish =>
          obtain ⟨-, hlength, -⟩ := h.getD_records hb hconform hrecords
          have hend : position + k ≤ s.count := by
            have := hrest.le_count
            omega
          obtain ⟨-, hshown⟩ := h.rows_of_decided hb hconform hrecords (hlength ▸ hk.le) hdecided
          refine ⟨_, (List.map_map ..).trans (hshown.trans (List.map_map ..).symm), ?_⟩
          rw [StoredRows.liveFrom_eq_append hend, List.map_append, List.map_map]
          exact List.prefix_append _ _
      | @more _ _ c d _ records rows e deleted hconform hrecords hdecided hfinish hfails =>
          obtain ⟨hsize, -⟩ := h.records_of_conform hb hconform
          obtain ⟨-, hlength, -⟩ := h.getD_records hb hconform hrecords
          rw [hlength] at hdecided ⊢
          obtain ⟨-, hshown⟩ := h.rows_of_decided hb hconform hrecords (le_refl _) hdecided
          obtain ⟨live, hlive, hprefix⟩ := ih (hsize ▸ hfails)
          refine ⟨((List.range b.size).filter fun i =>
            !s.isDeletedBy indexes file.path schema fileFields (position + i)).map
              (fun i => s.cells fileFields fields (position + i)) ++ live, ?_, ?_⟩
          · rw [List.map_append, List.map_append, hlive, List.map_map, List.map_map]
            exact congrArg (· ++ _) hshown
          · rw [StoredRows.liveFrom_eq_append hrest.le_count, List.map_append, List.map_map]
            exact (List.prefix_append_right_inj _).2 hprefix

end Over

end Scan.Layers

end MergeOnRead
