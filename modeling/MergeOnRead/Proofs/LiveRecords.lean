import MergeOnRead.Proofs.BatchFilter
import MergeOnRead.Proofs.RepeatedColumns

/-!
# Records and batches of a reader

A reader is read to the end as batches (`Scan.Layers.Reads`) or as rows (`Scan.Layers.Drains`).
Batches are filtered and cut down as a whole.  Rows are decoded first, and then it is asked of each
of them whether it is deleted.  Both meet where a batch has records and all of them are decided.

Strategy:

* `DeleteFilter.apply_eq_ok_of_decided`: a batch that can be filtered keeps the rows that are not
  deleted.  Its key columns have records because filtering did not fail (`records_keyColumns`);
* `Scan.Layers.rowsWithin_reader_iff`: reading rows to the end is one step for each batch of the
  stream, in which every record is decided (`decided_of_drain`);
* `Scan.Layers.Reads.length_le`: where positions are deleted, no batch has a row behind the last
  position that can be matched.
-/

namespace MergeOnRead

/-! ## What is left of a batch -/

namespace DeleteFilter

variable {file : DataFile} {indexes : List DeleteIndex} {fields : List Field} {check : Bool}
  {f : DeleteFilter} {b c : Batch} {start : Int} {records : List (List Value)}

/-- All positions of some rows can be matched with position deletes, if there are any. -/
def Reaches (f : DeleteFilter) (start : Int) (count : Nat) : Prop :=
  f.positions = none ∨ start + count ≤ (positionLimit : Int)

theorem undeletedPositions_of_reaches {count : Nat} (hstart : 0 ≤ start)
    (hreaches : f.Reaches start count) :
    f.undeletedPositions start count =
      .ok ((List.range count).filter fun (i : Nat) => !f.positionDeleted (start + i)) := by
  rcases hreaches with hnone | hend
  · simp [undeletedPositions, positionDeleted, hnone]
  · exact undeletedPositions_eq hstart hend

/-- A filter without deletes deletes no row. -/
theorem isDeleted_eq_false (hidle : f.hasDeletes = false) (p : Int) (row : Row) :
    f.isDeleted p row = .ok false := by
  obtain ⟨hpositions, hgroups⟩ : f.positions = none ∧ f.groups = [] := by
    simpa [hasDeletes] using hidle
  simp only [isDeleted, positionDeleted, hpositions, hgroups]
  rfl

/-- Where rows were asked for their keys, the key columns have records. -/
theorem records_keyColumns (hcreate : create file indexes fields check = .ok f)
    (hb : b.LaidOut fields) {kept numbers : List Nat}
    (hundeleted : f.undeletedPositions start b.size = .ok kept)
    (hrecords : b.records = .ok records) (hsurvive : f.survivingRows b start = .ok numbers)
    (hgroups : f.groups ≠ []) (hkept : kept ≠ [])
    (hselect : b.select (f.keyColumns.map fun (i : Nat) => (i : Int)) = .ok c) :
    c.records = .ok (records.map (Batch.pick f.keyColumns)) := by
  have hsome : ¬(f.groups.isEmpty || kept.isEmpty) = true := by simp [hgroups, hkept]
  have hplaces : ∀ place ∈ f.keyColumns, place < b.header.length := by
    intro place hplace
    rw [hb.length_header]
    exact lt_of_mem_keyColumns hcreate hplace
  rw [survivingRows, hundeleted, ok_bind, if_neg hsome, hselect, ok_bind] at hsurvive
  obtain ⟨picked, hpicked, hlive⟩ := bind_eq_ok_iff.1 hsurvive
  obtain ⟨hdecoded, -⟩ := Batch.records_eq_ok_iff.1 hpicked
  have hfound := Batch.select_eq_ok hplaces hb.addressable
  cases hselect.symm.trans hfound
  exact Batch.records_of_select hrecords
    (Follows.keyColumns_ne_nil_of_keepLive hsome hdecoded hlive) hb.width hb.addressable hplaces
    hfound (Batch.nodup_recordNames_of_decoded hdecoded)

/-- When it is decided for every record whether its row is deleted, a batch that can be filtered
keeps the other rows. -/
theorem apply_eq_ok_of_decided (hcreate : create file indexes fields check = .ok f)
    (hb : b.LaidOut fields) (hstart : 0 ≤ start) (hreaches : f.Reaches start b.size)
    (hrecords : b.records = .ok records) (hsize : records.length = b.size) {deleted : Nat → Bool}
    (hdecided : ∀ i < b.size, f.isDeleted (start + (i : Int))
      (RecordIterator.rowOf b.header.length (records.getD i [])) = .ok (deleted i))
    (happly : f.apply b start = .ok c) :
    c.header = b.header ∧
      c.rows = ((List.range b.size).filter fun i => !deleted i).map fun i => b.rows.getD i [] := by
  have hundeleted := undeletedPositions_of_reaches hstart hreaches
  rw [DeleteFilter.apply] at happly
  split at happly
  · rename_i hidle
    cases happly
    have hnone : ∀ i < b.size, deleted i = false := by
      intro i hi
      rcases Bool.or_eq_true_iff.1 hidle with hempty | hnone
      · rw [of_decide_eq_true hempty] at hi
        exact absurd hi (Nat.not_lt_zero i)
      · have hsame := hdecided i hi
        rw [isDeleted_eq_false (by simpa using hnone)] at hsame
        exact (Except.ok.inj hsame).symm
    have hall : (List.range b.size).filter (fun i => !deleted i) = List.range b.size := by
      rw [List.filter_eq_self]
      intro i hi
      rw [hnone i (List.mem_range.1 hi), Bool.not_false]
    rw [hall]
    exact ⟨rfl, (Batch.map_range_getD b.rows).symm⟩
  · obtain ⟨numbers, hsurvive, happly⟩ := bind_eq_ok_iff.1 happly
    have hpassing : f.passing start (fun i =>
        RecordIterator.rowOf b.header.length (records.getD i [])) b.size =
          .ok ((List.range b.size).filter fun i => !deleted i) := by
      refine filterM_eq_ok_filter fun i hi => ?_
      rw [test, hdecided i (List.mem_range.1 hi)]
      rfl
    have hnumbers : numbers = (List.range b.size).filter fun i => !deleted i := by
      have hsame := survivingRows_eq_of_picked hcreate hb hundeleted hrecords hsize (fun _ _ => rfl)
        fun hgroups hkept c hselect =>
          records_keyColumns hcreate hb hundeleted hrecords hsurvive hgroups hkept hselect
      rw [hsurvive, hpassing] at hsame
      exact Except.ok.inj hsame
    have hsublist : numbers.Sublist (List.range b.size) := by
      rw [hnumbers]
      exact List.filter_sublist
    rw [← apply_ite Except.ok, Except.ok.injEq] at happly
    subst happly
    refine ⟨by split <;> rfl, ?_⟩
    rw [rows_of_kept hsublist, hnumbers]

end DeleteFilter

/-! ## What is left of an iterator -/

namespace RecordIterator

variable {width : Nat} {stages : List Stage} {p : Int} {records : List (List Value)}

/-- Draining that comes to the end has passed every record, at its own position. -/
theorem exists_pass_of_drainFrom {items : List (Option Int × Row)}
    (h : (drainFrom width stages .ok (some p) records).1 = (items, none)) :
    ∀ i < records.length, ∃ out,
      pass (some (p + 1 + (i : Int))) stages (rowOf width (records.getD i [])) = .ok out := by
  induction records generalizing p items with
  | nil => exact fun i hi => absurd hi (Nat.not_lt_zero i)
  | cons record records ih =>
      rw [drainFrom, show following (some p) = some (p + 1) from rfl] at h
      obtain ⟨⟨out, hout⟩, rest, hrest⟩ : (∃ out,
          pass (some (p + 1)) stages (rowOf width record) = .ok out) ∧
            ∃ rest, (drainFrom width stages .ok (some (p + 1)) records).1 = (rest, none) := by
        cases hpass : pass (some (p + 1)) stages (rowOf width record) with
        | error e => simp [hpass] at h
        | ok out =>
            refine ⟨⟨out, rfl⟩, ?_⟩
            cases out with
            | none => exact ⟨items, by simpa [hpass] using h⟩
            | some r =>
                simp only [hpass, Prod.mk.injEq] at h
                exact ⟨_, Prod.ext rfl h.2⟩
      intro i hi
      cases i with
      | zero => exact ⟨out, by simpa using hout⟩
      | succ i =>
          obtain ⟨later, hlater⟩ := ih hrest i (Nat.lt_of_succ_lt_succ hi)
          have hposition : p + 1 + ((i + 1 : Nat) : Int) = p + 1 + 1 + i := by omega
          exact ⟨later, by rw [hposition, List.getD_cons_succ, hlater]⟩

end RecordIterator

namespace Scan.Layers

variable (l : Layers) (position : Nat) (r : Except Error Batch) (rest : BatchStream)

/-- What a record passes: the filter, if it deletes anything, and the view of the fields that are
asked for, if there are others. -/
def stages : List Stage :=
  (if l.filter.hasDeletes then [.live l.filter] else []) ++
    if l.total = l.asked then []
    else [.view ((List.range l.asked).map fun (i : Nat) => (i : Int))]

/-- The row of a record with all fields that are read. -/
def wholeRow (record : List Value) : Row := RecordIterator.rowOf l.header.length record

/-- The row that is handed out for a record. -/
def shownRow (record : List Value) : Row :=
  if l.total = l.asked then l.wholeRow record
  else .view ((List.range l.asked).map fun (i : Nat) => (i : Int)) (some (l.wholeRow record))

/-- A record passes unless the filter deletes its row. -/
theorem pass_stages (p : Int) (record : List Value) :
    RecordIterator.pass (some p) l.stages (l.wholeRow record) =
      (liftError .row (l.filter.isDeleted p (l.wholeRow record))).map fun deleted =>
        if deleted then none else some (l.shownRow record) := by
  have hview : RecordIterator.pass (some p)
      (if l.total = l.asked then []
        else [.view ((List.range l.asked).map fun (i : Nat) => (i : Int))])
      (l.wholeRow record) = .ok (some (l.shownRow record)) := by
    rw [shownRow]
    split <;> rfl
  rw [stages]
  cases hdeletes : l.filter.hasDeletes with
  | false =>
      rw [DeleteFilter.isDeleted_eq_false hdeletes]
      exact hview
  | true =>
      rw [if_pos rfl, List.singleton_append, RecordIterator.pass, hview]
      simp only [RecordIterator.positionOrError, ok_bind]
      cases l.filter.isDeleted p (l.wholeRow record) with
      | error e => rfl
      | ok deleted => cases deleted <;> rfl

theorem readRecords_counted :
    (l.counted position (r :: rest)).readRecords =
      match l.conformed r with
      | .ok c => ((c.iterate (some position)).map some, l.counted (position + c.size) rest)
      | .error e => (.error e, l.counted position rest) := by
  cases r with
  | error e => rfl
  | ok b =>
      simp only [counted, conformed, Reader.readRecords, Reader.readBatch, ok_bind, Except.map]
      cases b.conform l.names l.header <;> rfl

/-- A batch is read as an iterator over the records of what it is conformed to. -/
theorem readRecords_reader :
    (l.reader position (r :: rest)).readRecords =
      match l.conformed r with
      | .ok c => ((c.iterate (some position)).map fun it =>
          some { it with stages := it.stages ++ l.stages }, l.reader (position + c.size) rest)
      | .error e => (.error e, l.reader position rest) := by
  have hread := l.readRecords_counted position r rest
  simp only [reader, keepLeading, dropDeleted, stages]
  cases hconformed : l.conformed r with
  | error e =>
      simp only [hconformed] at hread
      split <;> split <;> simp [Reader.readRecords, hread, Except.map]
  | ok c =>
      simp only [hconformed] at hread
      cases hiterate : c.iterate (some (position : Int)) <;> split <;> split <;>
        simp [Reader.readRecords, hread, hiterate, Except.map, RecordIterator.through]

/-! ## Reading rows to the end -/

/-- Reading on from a position gives some rows, and no error: each batch has records, and it is
decided for each of them whether its row is deleted. -/
inductive Drains : Nat → BatchStream → List Row → Prop where
  | done {position : Nat} : Drains position [] []
  | more {position : Nat} {b c : Batch} {rest : BatchStream} {records : List (List Value)}
      {rows : List Row} (deleted : Nat → Bool) :
      b.conform l.names l.header = .ok c → c.records = .ok records →
        (∀ i < records.length, l.filter.isDeleted ((position : Int) + i)
          (l.wholeRow (records.getD i [])) = .ok (deleted i)) →
        Drains (position + c.size) rest rows →
          Drains position (.ok b :: rest)
            ((((List.range records.length).filter fun i => !deleted i).map fun i =>
              l.shownRow (records.getD i [])) ++ rows)

variable {l position}

/-- Records that are decided are drained to the end, and what is handed out are the rows that are
not deleted. -/
theorem exists_drainFrom {records : List (List Value)} {deleted : Nat → Bool}
    (hdecided : ∀ i < records.length, l.filter.isDeleted ((position : Int) + i)
      (l.wholeRow (records.getD i [])) = .ok (deleted i)) :
    ∃ items, (RecordIterator.drainFrom l.header.length l.stages .ok (some ((position : Int) - 1))
        records).1 = (items, none) ∧
      items.map (·.2) = ((List.range records.length).filter fun i => !deleted i).map fun i =>
        l.shownRow (records.getD i []) := by
  refine ⟨_, RecordIterator.drainFrom_eq
    (fun i => if deleted i then none else some (l.shownRow (records.getD i []))) ?_, ?_⟩
  · intro i hi
    rw [Int.sub_add_cancel, ← List.getD_eq_getElem records [] hi]
    refine (l.pass_stages _ _).trans ?_
    rw [hdecided i hi]
    rfl
  · rw [List.map_filterMap, ← List.filterMap_eq_map, List.filterMap_filter]
    refine List.filterMap_congr fun i _ => ?_
    cases deleted i <;> rfl

/-- Records whose iterator comes to the end are decided. -/
theorem decided_of_drain {c : Batch} {it : RecordIterator} {items : List (Option Int × Row)}
    (hheader : c.header = l.header) (hiterate : c.iterate (some (position : Int)) = .ok it)
    (hdrain : (({ it with stages := it.stages ++ l.stages } : RecordIterator).drain .ok).1 =
      (items, none)) :
    ∃ (records : List (List Value)) (deleted : Nat → Bool), c.records = .ok records ∧
      (∀ i < records.length, l.filter.isDeleted ((position : Int) + i)
        (l.wholeRow (records.getD i [])) = .ok (deleted i)) ∧
      items.map (·.2) = ((List.range records.length).filter fun i => !deleted i).map fun i =>
        l.shownRow (records.getD i []) := by
  obtain ⟨hfailure, hdrain⟩ := RecordIterator.drain_eq_iff.1 hdrain
  have hrecords := Batch.records_of_iterate hiterate hfailure
  generalize it.pending = records at hrecords
  rw [Batch.iterate_of_records hrecords] at hiterate
  obtain rfl := Except.ok.inj hiterate
  simp only [Option.map_some, List.nil_append, hheader] at hdrain
  have hpassed : ∀ i < records.length, ∃ deleted, l.filter.isDeleted ((position : Int) + i)
      (l.wholeRow (records.getD i [])) = .ok deleted := by
    intro i hi
    obtain ⟨out, hout⟩ := RecordIterator.exists_pass_of_drainFrom hdrain i hi
    rw [Int.sub_add_cancel] at hout
    obtain ⟨deleted, hdeleted, -⟩ := map_eq_ok_iff.1 ((l.pass_stages _ _).symm.trans hout)
    exact ⟨deleted, liftError_eq_ok_iff.1 hdeleted⟩
  choose! deleted hdeleted using hpassed
  obtain ⟨items', hitems', hrows⟩ := exists_drainFrom hdeleted
  cases hdrain.symm.trans hitems'
  exact ⟨records, deleted, hrecords, hdeleted, hrows⟩

/-- Rows are read to the end when their records are decided. -/
theorem rowsWithin_reader_iff {stream : BatchStream} {rows : List Row} :
    (l.reader position stream).rowsWithin stream.length = (rows, none) ↔
      l.Drains position stream rows := by
  constructor
  · intro h
    induction stream generalizing position rows with
    | nil =>
        cases h
        exact .done
    | cons r rest ih =>
        rw [List.length_cons, Reader.rowsWithin, readRecords_reader] at h
        cases hc : l.conformed r with
        | error e => simp [hc] at h
        | ok c =>
            obtain ⟨b, rfl, hconform⟩ := (conformed_eq_ok_iff _).1 hc
            have hheader := Batch.header_of_conform hconform
            cases hiterate : c.iterate (some (position : Int)) with
            | error e => simp [hc, hiterate, Except.map] at h
            | ok it =>
                simp only [hc, hiterate, Except.map] at h
                split at h
                · cases h
                · rename_i items hdrain
                  obtain ⟨records, deleted, hrecords, hdecided, hitems⟩ :=
                    decided_of_drain hheader hiterate hdrain
                  cases hmore : (l.reader (position + c.size) rest).rowsWithin rest.length with
                  | mk more failure =>
                      rw [hmore] at h
                      cases h
                      rw [hitems]
                      exact .more deleted hconform hrecords hdecided (ih hmore)
  · intro h
    induction h with
    | done => rfl
    | @more position b c rest records rows deleted hconform hrecords hdecided hrest ih =>
        have hheader := Batch.header_of_conform hconform
        have hc : l.conformed (.ok b) = .ok c := (conformed_eq_ok_iff _).2 ⟨b, rfl, hconform⟩
        obtain ⟨items, hitems, hrows⟩ := exists_drainFrom hdecided
        have hdrain : ((⟨l.header.length, records, none, some ((position : Int) - 1), l.stages⟩ :
            RecordIterator).drain .ok).1 = (items, none) :=
          RecordIterator.drain_eq_iff.2 ⟨rfl, hitems⟩
        rw [List.length_cons, Reader.rowsWithin, readRecords_reader]
        simp only [hc, Batch.iterate_of_records hrecords, Except.map, Option.map_some,
          List.nil_append, hheader, hdrain, ih, hrows]

end Scan.Layers

/-! ## Rows behind the last position -/

theorem Batch.length_keepFrom_le (i : Nat) (numbers : List Nat) (rows : List (List Value)) :
    (keep.keepFrom i numbers rows).length ≤ min numbers.length rows.length := by
  fun_induction keep.keepFrom i numbers rows with
  | case1 => simp
  | case2 => simp
  | case3 i ns row rows ih => simpa using ih
  | case4 i n ns row rows hn ih =>
      rw [List.length_cons] at ih ⊢
      rw [List.length_cons]
      omega

namespace DeleteFilter

variable {f : DeleteFilter} {b c : Batch} {position count : Nat} {numbers live : List Nat}

theorem length_keepLive_le {columns : List Nat} {groups : List EqualityGroup}
    {records : Array (List Value)} (h : keepLive columns groups records numbers = .ok live) :
    live.length ≤ numbers.length := by
  induction numbers generalizing live with
  | nil =>
      cases h
      exact Nat.le_refl _
  | cons i numbers ih =>
      rw [keepLive] at h
      split at h
      · cases h
      · obtain ⟨deleted, -, h⟩ := bind_eq_ok_iff.1 h
        obtain ⟨rest, hrest, h⟩ := bind_eq_ok_iff.1 h
        cases h
        have := ih hrest
        rw [List.length_cons]
        split
        · omega
        · rw [List.length_cons]
          omega

/-- Where positions are deleted, no row stays behind the last one that can be matched. -/
theorem length_undeletedPositions_le (hpositions : f.positions ≠ none)
    (h : f.undeletedPositions position count = .ok live) :
    live.length ≤ positionLimit - position := by
  cases hset : f.positions with
  | none => exact absurd hset hpositions
  | some set =>
      simp only [undeletedPositions, hset] at h
      split at h
      · cases h
      · cases h
        rw [List.length_map, PositionSet.survivors_eq_filter]
        refine (List.length_filter_le _ _).trans ?_
        rw [List.length_range', Int.toNat_natCast]
        exact Nat.min_le_right _ _

theorem length_survivingRows_le (hpositions : f.positions ≠ none)
    (h : f.survivingRows b position = .ok live) : live.length ≤ positionLimit - position := by
  obtain ⟨kept, hkept, h⟩ := bind_eq_ok_iff.1 h
  have hle := length_undeletedPositions_le hpositions hkept
  split at h
  · cases h
    exact hle
  · obtain ⟨keyBatch, -, h⟩ := bind_eq_ok_iff.1 h
    obtain ⟨records, -, h⟩ := bind_eq_ok_iff.1 h
    exact (length_keepLive_le h).trans hle

theorem size_apply_le (hpositions : f.positions ≠ none) (h : f.apply b position = .ok c) :
    c.size ≤ min b.size (positionLimit - position) := by
  rw [DeleteFilter.apply] at h
  split at h
  · rename_i hidle
    cases h
    have hempty : b.size = 0 := by
      rcases Bool.or_eq_true_iff.1 hidle with hempty | hnone
      · exact of_decide_eq_true hempty
      · simp [hasDeletes, Option.isSome_iff_ne_none.2 hpositions] at hnone
    omega
  · obtain ⟨live, hlive, h⟩ := bind_eq_ok_iff.1 h
    have hle := length_survivingRows_le hpositions hlive
    split at h
    · rename_i hall
      cases h
      omega
    · cases h
      have hkept := Batch.length_keepFrom_le 0 live b.rows
      change (Batch.keep.keepFrom 0 live b.rows).length ≤ min b.rows.length _
      omega

end DeleteFilter

/-- Where positions are deleted, no more rows are read as batches than positions can be matched. -/
theorem Scan.Layers.Reads.length_le {l : Scan.Layers} {position : Nat} {stream : BatchStream}
    {ds : List Batch} (hpositions : l.filter.positions ≠ none) (h : l.Reads position stream ds) :
    (ds.flatMap (·.rows)).length ≤ DeleteFilter.positionLimit - position := by
  induction h with
  | done => exact Nat.zero_le _
  | @more position b c d rest ds hconform hfinish hrest ih =>
      obtain ⟨kept, hkept, hfinish⟩ := bind_eq_ok_iff.1 hfinish
      have hsize : d.rows.length = kept.size := by
        split at hfinish
        · cases hfinish
          rfl
        · obtain ⟨places, -, hfinish⟩ := bind_eq_ok_iff.1 hfinish
          cases hfinish
          exact List.length_map ..
      have := DeleteFilter.size_apply_le hpositions hkept
      rw [List.flatMap_cons, List.length_append, hsize]
      omega

end MergeOnRead
