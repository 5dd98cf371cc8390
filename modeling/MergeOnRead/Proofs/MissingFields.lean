import MergeOnRead.Proofs.CachedScans
import MergeOnRead.Proofs.FilterUnion
import MergeOnRead.Proofs.ReadFields

/-!
# When a read misses no field and no schema

A read can fail for a field that is missing from a schema, or for a schema that is missing from the
log, in three places only: when the key fields of a delete file are looked up, when the fields of a
task are put together, and when the schema of its data file is looked up.  Everything behind these
places fails in other ways (`Table.conserves_readInOrder`, `Table.conserves_readTable`), unless the
source of the rows itself reports such an error.

Strategy:

* `Resolves` says of a result that it is no such error, and is closed under the ways in which
  results are put together (`Resolves.bind`, `Resolves.mapM`);
* there is a lemma for each operation on batches, filters and iterators, none of which looks up a
  field; for readers it is an induction over the layers (`Reader.resolves_readBatch`);
* `DeleteFile.resolves_load` and `Table.resolves_readerOver` are the three places;
* `Conserves` carries both through a cache that may hold whatever was loaded before.
-/

namespace MergeOnRead

variable {α β : Type}

/-- A field is missing from a schema, or a schema from the log. -/
def Error.IsMissing (e : Error) : Prop :=
  e.kind = .schemaMismatch ∨ ∃ id, e = .log (.unknownSchema id)

/-- If a result is an error, then not one of a missing field or schema. -/
def Resolves (x : Except Error α) : Prop := ∀ e, x = .error e → ¬e.IsMissing

namespace Error

theorem isMissing_iff_kind {e : Error} (hlog : ∀ cause, e ≠ .log cause) :
    e.IsMissing ↔ e.kind = .schemaMismatch := by
  constructor
  · rintro (hkind | ⟨id, h⟩)
    · exact hkind
    · exact absurd h (hlog _)
  · exact .inl

@[simp] theorem isMissing_scan {cause : ScanCause} {path : Option String} :
    (Error.scan cause path).IsMissing ↔ cause.kind = .schemaMismatch :=
  isMissing_iff_kind fun _ h => by cases h

@[simp] theorem isMissing_raised {kind : ErrorKind} :
    (Error.raised kind).IsMissing ↔ kind = .schemaMismatch :=
  isMissing_iff_kind fun _ h => by cases h

@[simp] theorem not_isMissing_row (e : RowError) : ¬(Error.row e).IsMissing := by
  rw [isMissing_iff_kind fun _ h => by cases h]
  intro h
  cases e with
  | comparison e => cases e <;> cases h
  | _ => cases h

@[simp] theorem not_isMissing_type (e : TypeError) : ¬(Error.type e).IsMissing := by
  rw [isMissing_iff_kind fun _ h => by cases h]
  intro h
  cases e <;> cases h

@[simp] theorem not_isMissing_option (e : OptionError) : ¬(Error.option e).IsMissing := by
  rw [isMissing_iff_kind fun _ h => by cases h]
  intro h
  cases e <;> cases h

@[simp] theorem not_isMissing_untracked (reader : String) :
    ¬(Error.untracked reader).IsMissing := by
  rw [isMissing_iff_kind fun _ h => by cases h]
  intro h
  cases h

@[simp] theorem not_isMissing_outsideList : ¬Error.outsideList.IsMissing := by
  rw [isMissing_iff_kind fun _ h => by cases h]
  intro h
  cases h

@[simp] theorem not_isMissing_blocked : ¬Error.blocked.IsMissing := by
  rw [isMissing_iff_kind fun _ h => by cases h]
  intro h
  cases h

/-- What a reader reports of an error is missing nothing when the error is not. -/
theorem not_isMissing_report {path : String} {e : Error} (h : ¬e.IsMissing) :
    ¬(BatchStream.report path e).IsMissing := by
  unfold BatchStream.report
  split
  · exact h
  · split
    case h_8 => exact h
    all_goals simp [ScanCause.kind]

theorem not_isMissing_reportDelete {f : DeleteFile} {e : Error} (h : ¬e.IsMissing) :
    ¬(f.report e).IsMissing := by
  unfold DeleteFile.report
  split
  · simp [ScanCause.kind]
  · exact h

end Error

/-! ## Results that are put together -/

namespace Resolves

@[simp] theorem ok (a : α) : Resolves (.ok a) := fun e h => by cases h

@[simp] theorem error_iff {e : Error} : Resolves (.error e : Except Error α) ↔ ¬e.IsMissing :=
  ⟨fun h => h e rfl, fun h e' he => by cases he; exact h⟩

theorem bind {x : Except Error α} {f : α → Except Error β} (hx : Resolves x)
    (hf : ∀ a, x = .ok a → Resolves (f a)) : Resolves (x >>= f) := by
  intro e he
  rcases bind_eq_error_iff.1 he with he | ⟨a, ha, he⟩
  · exact hx e he
  · exact hf a ha e he

theorem map {x : Except Error α} (hx : Resolves x) (f : α → β) : Resolves (x.map f) := by
  cases x with
  | error e => exact error_iff.2 (error_iff.1 hx)
  | ok a => exact ok _

theorem mapM {f : α → Except Error β} {xs : List α} (h : ∀ x ∈ xs, Resolves (f x)) :
    Resolves (xs.mapM f) := by
  induction xs with
  | nil => exact ok _
  | cons x xs ih =>
      intro e he
      rcases mapM_cons_eq_error_iff.1 he with he | ⟨-, he⟩
      · exact h x (List.mem_cons_self ..) e he
      · exact ih (fun y hy => h y (List.mem_cons_of_mem _ hy)) e he

theorem mapError {x : Except Error α} (hx : Resolves x) {f : Error → Error}
    (hf : ∀ e, ¬e.IsMissing → ¬(f e).IsMissing) : Resolves (x.mapError f) := by
  cases x with
  | error e => exact error_iff.2 (hf e (error_iff.1 hx))
  | ok a => exact ok _

theorem lift {ε : Type} {wrap : ε → Error} (hwrap : ∀ e, ¬(wrap e).IsMissing)
    (x : Except ε α) : Resolves (liftError wrap x) := by
  cases x with
  | error e => exact error_iff.2 (hwrap e)
  | ok a => exact ok _

end Resolves

/-! ## Batches -/

theorem FlatType.resolves_convertAll (s t : FlatType) (values : List Value) :
    Resolves (s.convertAll t values) := by
  unfold convertAll
  repeat' split
  all_goals simp [Error.badColumn]

theorem ColumnType.resolves_convertAll (s t : ColumnType) (values : List Value) :
    Resolves (s.convertAll t values) := by
  fun_induction ColumnType.convertAll s t values with
  | case1 values s t => exact s.resolves_convertAll t values
  | case4 values _ s _ t _ hitems => exact hitems.bind fun _ _ => .ok _
  | case6 values k v l w _ entries hkeys hcontents =>
      exact hkeys.bind fun _ _ => hcontents.bind fun _ _ => .ok _
  | _ => simp

namespace Batch

variable (b : Batch)

theorem resolves_resolveIndex (index : Int) : Resolves (b.resolveIndex index) := by
  unfold resolveIndex
  repeat' split
  all_goals simp

theorem resolves_select (indices : List Int) : Resolves (b.select indices) :=
  (Resolves.mapM fun index _ => b.resolves_resolveIndex index).bind fun _ _ => .ok _

theorem resolves_conform (names : List (Option String)) (header : List ColumnHeader) :
    Resolves (b.conform names header) := by
  have hcolumn : ∀ name type, Resolves (b.conformColumn name type) := by
    intro name type
    unfold conformColumn
    split
    · exact .ok _
    · split
      · simp
      · exact (ColumnType.resolves_convertAll _ _ _).map _
  refine (Resolves.mapM fun p _ => hcolumn p.1 p.2.type).bind fun columns _ => ?_
  split <;> simp

theorem resolves_decoded : Resolves b.decoded := by
  unfold decoded
  repeat' split
  all_goals simp

theorem resolves_records : Resolves b.records := by
  refine b.resolves_decoded.bind fun rows _ => ?_
  split <;> simp

theorem resolves_recordBlocks : Resolves b.recordBlocks := by
  refine b.resolves_decoded.bind fun rows _ => ?_
  split <;> simp

/-- The error that ends the records is one of a value. -/
theorem failure_of_recordBlocks {records : List (List Value)} {failure : Option Error}
    (h : b.recordBlocks = .ok (records, failure)) : ∀ e ∈ failure, ¬e.IsMissing := by
  obtain ⟨rows, -, h⟩ := bind_eq_ok_iff.1 h
  split at h <;> cases h <;> simp

end Batch

/-! ## Filters and iterators -/

namespace DeleteFilter

variable (f : DeleteFilter)

theorem resolves_undeletedPositions (start : Int) (count : Nat) :
    Resolves (f.undeletedPositions start count) := by
  unfold undeletedPositions
  repeat' split
  all_goals simp

theorem resolves_keepLive (columns : List Nat) (groups : List EqualityGroup)
    (records : Array (List Value)) (numbers : List Nat) :
    Resolves (keepLive columns groups records numbers) := by
  induction numbers with
  | nil => exact .ok _
  | cons i is ih =>
      rw [keepLive]
      split
      · simp
      · refine (Resolves.lift Error.not_isMissing_row _).bind fun deleted _ => ?_
        exact ih.bind fun rest _ => .ok _

theorem resolves_apply (b : Batch) (start : Int) : Resolves (f.apply b start) := by
  unfold apply
  split
  · exact .ok _
  · refine Resolves.bind ?_ fun live _ => by split <;> exact .ok _
    refine (f.resolves_undeletedPositions start b.size).bind fun kept _ => ?_
    split
    · exact .ok _
    · refine (b.resolves_select _).bind fun keyBatch _ => ?_
      exact keyBatch.resolves_records.bind fun records _ => resolves_keepLive _ _ _ _

end DeleteFilter

namespace RecordIterator

theorem resolves_pass (position : Option Int) (stages : List Stage) (r : Row) :
    Resolves (pass position stages r) := by
  induction stages generalizing r with
  | nil => exact .ok _
  | cons stage stages ih =>
      cases stage with
      | live filter =>
          rw [pass]
          refine Resolves.bind ?_ fun p _ => ?_
          · cases position <;> simp [positionOrError]
          · refine (Resolves.lift Error.not_isMissing_row _).bind fun deleted _ => ?_
            split
            · exact .ok _
            · exact ih r
      | view mapping => exact ih _

theorem resolves_drainFrom {visit : Row → Except Error α} (hvisit : ∀ r, Resolves (visit r))
    (width : Nat) (stages : List Stage) (position : Option Int) (records : List (List Value)) :
    ∀ e ∈ (drainFrom width stages visit position records).1.2, ¬e.IsMissing := by
  induction records generalizing position with
  | nil => simp [drainFrom]
  | cons record records ih =>
      rw [drainFrom]
      have hpass := resolves_pass (following position) stages (rowOf width record)
      cases hrow : pass (following position) stages (rowOf width record) with
      | error e => simpa [hrow] using hpass
      | ok row =>
          cases row with
          | none => exact ih _
          | some r =>
              have hr := hvisit r
              cases hmade : visit r with
              | error e => simpa [hmade] using hr
              | ok a => simpa [hmade] using ih _

theorem resolves_drain {it : RecordIterator} (hfailure : ∀ e ∈ it.failure, ¬e.IsMissing)
    {visit : Row → Except Error α} (hvisit : ∀ r, Resolves (visit r)) :
    ∀ e ∈ (it.drain visit).1.2, ¬e.IsMissing := by
  have hdrain := resolves_drainFrom hvisit it.width it.stages it.position it.pending
  unfold drain
  revert hdrain
  obtain ⟨⟨items, failure⟩, position, pending⟩ :=
    drainFrom it.width it.stages visit it.position it.pending
  intro hdrain
  cases failure with
  | none => exact hfailure
  | some e => exact hdrain

end RecordIterator

/-! ## Readers -/

namespace Reader

/-- The stream that a reader has still to read. -/
def items : Reader → BatchStream
  | .stream batches _ => batches
  | .tracked _ inner | .reported _ inner | .conformed _ _ inner | .projected _ inner
  | .filtered _ inner => inner.items

/-- No item of the stream is an error of a missing field or schema. -/
def IsResolving (r : Reader) : Prop := ∀ item ∈ r.items, Resolves item

theorem resolves_batchPosition (r : Reader) : Resolves r.batchPosition := by
  induction r with
  | projected mapping inner ih => exact ih
  | _ => simp [batchPosition]

/-- No layer looks up a field. -/
theorem resolves_readBatch {r : Reader} (h : r.IsResolving) :
    Resolves r.readBatch.1 ∧ r.readBatch.2.IsResolving := by
  induction r with
  | stream batches closings =>
      cases batches with
      | nil => exact ⟨.ok _, h⟩
      | cons item batches =>
          exact ⟨(h item (List.mem_cons_self ..)).map _,
            fun b hb => h b (List.mem_cons_of_mem _ hb)⟩
  | tracked consumed inner ih =>
      obtain ⟨hbatch, hrest⟩ := ih h
      rw [readBatch]
      split
      · rename_i heq
        rw [heq] at hrest
        exact ⟨.ok _, hrest⟩
      · rename_i heq
        rw [heq] at hbatch hrest
        exact ⟨hbatch, hrest⟩
  | reported path inner ih =>
      obtain ⟨hbatch, hrest⟩ := ih h
      exact ⟨hbatch.mapError fun e he => Error.not_isMissing_report he, hrest⟩
  | conformed names header inner ih =>
      obtain ⟨hbatch, hrest⟩ := ih h
      refine ⟨?_, hrest⟩
      rw [readBatch]
      dsimp only
      split
      · exact (Batch.resolves_conform _ _ _).map _
      · exact hbatch
  | projected mapping inner ih =>
      obtain ⟨hbatch, hrest⟩ := ih h
      refine ⟨?_, hrest⟩
      rw [readBatch]
      dsimp only
      split
      · exact (Batch.resolves_select _ _).map _
      · exact hbatch
  | filtered filter inner ih =>
      obtain ⟨hbatch, hrest⟩ := ih h
      refine ⟨?_, hrest⟩
      rw [readBatch]
      dsimp only
      split
      · exact (resolves_batchPosition _).bind fun position _ =>
          (filter.resolves_apply _ _).map _
      · exact hbatch

/-- What is read as records fails for nothing missing, now or later. -/
def IsResolvingRecords (x : Except Error (Option RecordIterator)) : Prop :=
  Resolves x ∧ ∀ it, x = .ok (some it) → ∀ e ∈ it.failure, ¬e.IsMissing

theorem isResolvingRecords_iterate (b : Batch) (start : Option Int) :
    IsResolvingRecords ((b.iterate start).map some) := by
  refine ⟨((b.resolves_recordBlocks).bind fun _ _ => .ok _).map _, fun it h => ?_⟩
  obtain ⟨it', hit, h⟩ := map_eq_ok_iff.1 h
  cases h
  obtain ⟨⟨records, failure⟩, hblocks, hit⟩ := bind_eq_ok_iff.1 hit
  cases hit
  exact b.failure_of_recordBlocks hblocks

theorem isResolvingRecords_through {x : Except Error (Option RecordIterator)}
    (h : IsResolvingRecords x) (stage : Stage) :
    IsResolvingRecords (x.map fun it => it.map fun it => it.through stage) := by
  refine ⟨h.1.map _, fun it hit => ?_⟩
  obtain ⟨found, rfl, hfound⟩ := map_eq_ok_iff.1 hit
  obtain ⟨it', rfl, rfl⟩ := Option.map_eq_some_iff.1 hfound
  exact h.2 it' rfl

theorem resolves_readRecords {r : Reader} (h : r.IsResolving) :
    IsResolvingRecords r.readRecords.1 ∧ r.readRecords.2.IsResolving := by
  -- A layer that is read as batches hands out the records of its next batch.
  have hplain : ∀ (r : Reader) (start : Option Int), r.IsResolving →
      IsResolvingRecords (match r.readBatch.1 with
        | .ok (some b) => (b.iterate start).map some
        | .ok none => .ok none
        | .error e => .error e) ∧ r.readBatch.2.IsResolving := by
    intro r start hr
    obtain ⟨hbatch, hrest⟩ := resolves_readBatch hr
    refine ⟨?_, hrest⟩
    split
    · exact isResolvingRecords_iterate _ _
    · exact ⟨.ok _, by rintro it ⟨⟩⟩
    · rename_i heq
      exact ⟨Resolves.error_iff.2 (Resolves.error_iff.1 (heq ▸ hbatch)), by rintro it ⟨⟩⟩
  induction r with
  | tracked consumed inner ih =>
      obtain ⟨hrecords, hrest⟩ := hplain inner (some consumed) h
      rw [readRecords]
      revert hrecords hrest
      obtain ⟨item, rest⟩ := inner.readBatch
      intro hrecords hrest
      cases item with
      | error e => exact ⟨hrecords, hrest⟩
      | ok found => cases found <;> exact ⟨hrecords, hrest⟩
  | projected mapping inner ih =>
      obtain ⟨hrecords, hrest⟩ := ih h
      exact ⟨isResolvingRecords_through hrecords _, hrest⟩
  | filtered filter inner ih =>
      obtain ⟨hrecords, hrest⟩ := ih h
      exact ⟨isResolvingRecords_through hrecords _, hrest⟩
  | _ =>
      obtain ⟨hrecords, hrest⟩ := hplain _ none h
      simp only [readRecords]
      revert hrecords hrest
      generalize readBatch _ = read
      obtain ⟨item, rest⟩ := read
      intro hrecords hrest
      cases item with
      | error e => exact ⟨hrecords, hrest⟩
      | ok found => cases found <;> exact ⟨hrecords, hrest⟩

/-! ### To the end -/

theorem resolves_batchesWithin (count : Nat) {r : Reader} (h : r.IsResolving) :
    ∀ e ∈ (r.batchesWithin count).2, ¬e.IsMissing := by
  induction count generalizing r with
  | zero => simp [batchesWithin]
  | succ count ih =>
      obtain ⟨hbatch, hrest⟩ := resolves_readBatch h
      rw [batchesWithin]
      revert hbatch hrest
      obtain ⟨item, rest⟩ := r.readBatch
      intro hbatch hrest
      cases item with
      | error e => simpa using hbatch
      | ok found =>
          cases found with
          | none => simp
          | some b => exact ih hrest

theorem resolves_rowsWithin (count : Nat) {r : Reader} (h : r.IsResolving) :
    ∀ e ∈ (r.rowsWithin count).2, ¬e.IsMissing := by
  induction count generalizing r with
  | zero => simp [rowsWithin]
  | succ count ih =>
      obtain ⟨hrecords, hrest⟩ := resolves_readRecords h
      rw [rowsWithin]
      revert hrecords hrest
      obtain ⟨item, rest⟩ := r.readRecords
      intro hrecords hrest
      cases item with
      | error e => simpa using hrecords.1
      | ok found =>
          cases found with
          | none => simp
          | some it =>
              have hdrain : ∀ e ∈ (it.drain .ok).1.2, ¬e.IsMissing :=
                RecordIterator.resolves_drain (hrecords.2 it rfl) fun r => .ok r
              simp only
              split
              · rename_i heq
                rw [heq] at hdrain
                exact hdrain
              · exact ih hrest

end Reader

/-! ## Delete files -/

/-- A source does not report by itself that a field or a schema is missing. -/
def RowSource.IsResolving (source : RowSource) : Prop :=
  ∀ path format names, Resolves (source path format names) ∧
    ∀ stream, source path format names = .ok stream → ∀ item ∈ stream, Resolves item

namespace DeleteFile

variable {f : DeleteFile} {source : RowSource} {schema : TableSchema}

theorem resolves_openFields (hsource : source.IsResolving) (fields : List Field) :
    Resolves (f.openFields source fields) ∧
      ∀ r, f.openFields source fields = .ok r → r.IsResolving := by
  obtain ⟨hopen, hitems⟩ := hsource f.path f.format (fields.map (·.name))
  constructor
  · refine hopen.bind fun stream _ => ?_
    exact (Resolves.lift Error.not_isMissing_type _).bind fun header _ => .ok _
  · intro r hr
    obtain ⟨stream, hstream, hr⟩ := bind_eq_ok_iff.1 hr
    obtain ⟨header, -, hr⟩ := bind_eq_ok_iff.1 hr
    cases hr
    exact hitems stream hstream

theorem resolves_positionOf (row : List Value) : Resolves (f.positionOf row) := by
  unfold positionOf
  repeat' split
  all_goals simp [ScanCause.kind]

theorem resolves_loadPositions (hsource : source.IsResolving) :
    Resolves (f.loadPositions source) := by
  obtain ⟨hopen, hreader⟩ := resolves_openFields hsource (f := f) [pathField, positionField]
  refine hopen.bind fun reader hr => ?_
  have hbatches : ∀ e ∈ reader.batches.2, ¬e.IsMissing :=
    Reader.resolves_batchesWithin _ (hreader reader hr)
  dsimp only
  refine Resolves.bind ?_ fun pairs _ => .ok _
  refine (Resolves.mapM fun b _ => .mapM fun row _ => resolves_positionOf row).bind fun _ _ => ?_
  cases hfailure : reader.batches.2 with
  | none => exact .ok _
  | some e => exact Resolves.error_iff.2 (Error.not_isMissing_reportDelete (hbatches e hfailure))

theorem resolves_addKeys (keys : KeySet) (number : Nat) (batches : List Batch) :
    Resolves (f.addKeys keys number batches) := by
  induction batches generalizing keys number with
  | nil => exact .ok _
  | cons b bs ih =>
      have hrows : Resolves (keyRows b) := by
        unfold keyRows
        split
        · exact .ok _
        · exact b.resolves_recordBlocks
      rw [addKeys]
      refine hrows.bind fun p hp => ?_
      have hfailure : ∀ e ∈ p.2, ¬e.IsMissing := by
        unfold keyRows at hp
        split at hp
        · cases hp
          simp
        · exact b.failure_of_recordBlocks hp
      dsimp only
      split
      · simp
      · rename_i hsome _
        exact Resolves.error_iff.2 (hfailure _ hsome)
      · exact ih _ _

/-- The first of the three places: a delete file whose key fields are in the schema. -/
theorem resolves_load (hsource : source.IsResolving)
    (hids : ∀ id ∈ f.fieldIds, (schema.findField? id).isSome) :
    Resolves (f.load source schema) := by
  have hequalities : Resolves (f.loadEqualities source schema) := by
    have hfields : Resolves (f.keyFields schema) := by
      refine Resolves.mapM fun id hid => ?_
      obtain ⟨field, hfield⟩ := Option.isSome_iff_exists.1 (hids id hid)
      rw [hfield]
      exact .ok _
    refine hfields.bind fun fields _ => ?_
    obtain ⟨hopen, hreader⟩ := resolves_openFields hsource (f := f) fields
    refine hopen.bind fun reader hr => ?_
    have hbatches : ∀ e ∈ reader.batches.2, ¬e.IsMissing :=
      Reader.resolves_batchesWithin _ (hreader reader hr)
    refine (resolves_addKeys _ _ _).bind fun keys _ => ?_
    split
    · rename_i e hfailure
      exact Resolves.error_iff.2 (Error.not_isMissing_reportDelete (hbatches e hfailure))
    · exact .ok _
  unfold load
  split
  · exact resolves_loadPositions hsource
  · exact hequalities

/-- The index of a file has its field ids. -/
theorem fieldIds_of_load {i : DeleteIndex} (h : f.load source schema = .ok i) :
    i.fieldIds ⊆ f.fieldIds := by
  unfold load at h
  split at h
  · obtain ⟨reader, -, h⟩ := bind_eq_ok_iff.1 h
    obtain ⟨pairs, -, h⟩ := bind_eq_ok_iff.1 h
    cases h
    exact List.nil_subset _
  · obtain ⟨fields, -, h⟩ := bind_eq_ok_iff.1 h
    obtain ⟨reader, -, h⟩ := bind_eq_ok_iff.1 h
    obtain ⟨keys, -, h⟩ := bind_eq_ok_iff.1 h
    split at h
    · cases h
    · cases h
      exact List.Subset.refl _

end DeleteFile

/-! ## Tasks -/

theorem Scan.resolves_columnsToRead (fileSchema : TableSchema) (names : List (Option String)) :
    Resolves (columnsToRead fileSchema names) := by
  unfold columnsToRead
  repeat' split
  all_goals simp

theorem Scan.resolves_dataReader {source : RowSource} (hsource : source.IsResolving)
    (file : DataFile) (fileSchema : TableSchema) (fields : List Field) :
    Resolves (dataReader source file fileSchema fields) ∧
      ∀ r, dataReader source file fileSchema fields = .ok r → r.IsResolving := by
  constructor
  · refine (resolves_columnsToRead _ _).bind fun columns _ => ?_
    refine (hsource _ _ _).1.bind fun stream _ => ?_
    exact (Resolves.lift Error.not_isMissing_type _).bind fun header _ => .ok _
  · intro r hr
    obtain ⟨columns, -, hr⟩ := bind_eq_ok_iff.1 hr
    obtain ⟨stream, hstream, hr⟩ := bind_eq_ok_iff.1 hr
    obtain ⟨header, -, hr⟩ := bind_eq_ok_iff.1 hr
    cases hr
    exact (hsource _ _ _).2 stream hstream

/-- The second place: key fields that are in the schema can be read behind the others. -/
theorem Scan.exists_readFields {schema : TableSchema} (dataPath : String) (fields : List Field)
    {ids : List Int} (hids : ∀ id ∈ ids, (schema.findField? id).isSome) :
    ∃ all, readFields schema dataPath fields ids = .ok all := by
  induction ids generalizing fields with
  | nil => exact ⟨fields, rfl⟩
  | cons id ids ih =>
      have hrest : ∀ i ∈ ids, (schema.findField? i).isSome :=
        fun i hi => hids i (List.mem_cons_of_mem _ hi)
      obtain ⟨field, hfield⟩ := Option.isSome_iff_exists.1 (hids id (List.mem_cons_self ..))
      rw [readFields, hfield]
      split
      · exact ih fields hrest
      · exact ih _ hrest

theorem DeleteFilter.resolves_create {file : DataFile} {indexes : List DeleteIndex}
    {fields : List Field} {check : Bool}
    (hids : ∀ index ∈ indexes, ∀ id ∈ index.fieldIds, id ∈ fields.map (·.id)) :
    Resolves (create file indexes fields check) := by
  rcases create_cases file indexes fields check with
    ⟨last, -, -, h⟩ | ⟨-, ⟨id, hid, -⟩ | ⟨-, f, h⟩⟩
  · rw [h]
    simp [ScanCause.kind]
  · rw [DeleteIndex.firstUnread?_eq_none_iff.2 hids] at hid
    cases hid
  · rw [h]
    exact .ok f

namespace Table

variable {t : Table} {schema : TableSchema} {fields : List Field} {file : DataFile}
  {indexes : List DeleteIndex}

/-- The reader of a task looks for its key fields and for the schema of its data file. -/
theorem resolves_readerOver (hsource : t.source.IsResolving)
    (hids : ∀ index ∈ indexes, ∀ id ∈ index.fieldIds, (schema.findField? id).isSome)
    (hfile : ∃ s, t.log.schemaById file.schemaId = .ok s) :
    Resolves (t.readerOver schema fields file indexes) ∧
      ∀ r, t.readerOver schema fields file indexes = .ok r → r.IsResolving := by
  obtain ⟨fileSchema, hfile⟩ := hfile
  have hkeys : ∀ id ∈ indexes.flatMap (·.fieldIds), (schema.findField? id).isSome := by
    intro id hid
    obtain ⟨index, hindex, hid⟩ := List.mem_flatMap.1 hid
    exact hids index hindex id hid
  obtain ⟨all, hall⟩ := Scan.exists_readFields file.path fields hkeys
  obtain ⟨-, -, hread⟩ := Scan.readFields_eq_ok hall
  obtain ⟨hdata, hreader⟩ := Scan.resolves_dataReader hsource file fileSchema all
  unfold readerOver
  rw [hall, ok_bind, hfile]
  constructor
  · refine (Resolves.lift Error.not_isMissing_option _).bind fun check _ => ?_
    refine (DeleteFilter.resolves_create fun index hindex id hid =>
      hread id (List.mem_flatMap.2 ⟨index, hindex, hid⟩)).bind fun filter _ => ?_
    exact hdata.bind fun reader _ => .ok _
  · intro r hr
    obtain ⟨check, -, hr⟩ := bind_eq_ok_iff.1 hr
    obtain ⟨filter, -, hr⟩ := bind_eq_ok_iff.1 hr
    rw [ok_bind] at hr
    obtain ⟨reader, hopened, hr⟩ := bind_eq_ok_iff.1 hr
    cases hr
    have hitems : reader.IsResolving := hreader reader hopened
    unfold Scan.keepLeading Scan.dropDeleted
    split <;> split <;> exact hitems

end Table

/-! ## Indexes that are kept -/

/-- A call of a cache gives an entry that was there or was loaded, or it fails with the load or
because of the cache, and only what was loaded is added. -/
theorem IndexCache.of_getOrLoad {c d : IndexCache α} {key : Key} {given : Except Error α}
    {o : Outcome α} (h : getOrLoad key (fun s => (given, s)) (c, ()) = (o, (d, ()))) :
    (∀ e ∈ d.entries, e ∈ c.entries ∨ given = .ok e.2 ∧ e.1 = key) ∧
      ∀ r, o = .done r → match r with
        | .ok a => (key, a) ∈ c.entries ∨ given = .ok a
        | .error e => given = .error e ∨ e = .raised .value := by
  obtain ⟨b, hpeek, henter⟩ | ⟨build, henter, -⟩ | ⟨henter, hpeek, hfree⟩ := c.enter_cases key
  · have hmem := mem_of_peek?_eq_some hpeek
    rw [getOrLoad, henter] at h
    cases h
    refine ⟨fun e he => .inl ?_, fun r hr => by cases hr; exact .inl hmem⟩
    rcases List.mem_cons.1 he with rfl | he
    · exact hmem
    · exact (List.mem_filter.1 he).1
  · rw [getOrLoad, henter] at h
    cases h
    exact ⟨fun e he => .inl he, fun r hr => by cases hr⟩
  · cases given with
    | error err =>
        simp only [getOrLoad, henter, build] at h
        cases h
        exact ⟨fun e he => .inl he, fun r hr => by cases hr; exact .inl rfl⟩
    | ok a =>
        by_cases hroom : c.maxEntries < 1
        · simp only [getOrLoad, henter, build, publish, if_pos hroom] at h
          cases h
          exact ⟨fun e he => .inl he, fun r hr => by cases hr; exact .inr rfl⟩
        · simp only [getOrLoad, henter, build, publish, if_neg hroom] at h
          cases h
          refine ⟨fun e he => ?_, fun r hr => by cases hr; exact .inr rfl⟩
          rcases List.mem_cons.1 (List.mem_of_mem_take he) with rfl | he
          · exact .inr ⟨rfl, rfl⟩
          · exact .inl (List.mem_filter.1 he).1

/-- Every index that is kept was given by some file under its key, perhaps by another source or
under another schema. -/
def KeepsGiven (kept : KeptIndexes) : Prop :=
  ∀ c ∈ kept, ∀ e ∈ c.entries, ∃ (f : DeleteFile) (source : RowSource) (schema : TableSchema),
    f.cacheKey.key = e.1 ∧ f.load source schema = .ok e.2

/-- A computation keeps only indexes that files have given, and what it gives has a property. -/
def Conserves (x : StateM KeptIndexes α) (P : α → Prop) : Prop :=
  ∀ kept, KeepsGiven kept → KeepsGiven (x.run kept).2 ∧ P (x.run kept).1

/-- If it is an error, then not a missing one, and otherwise it has a property. -/
def ResolvesWith (P : α → Prop) (x : Except Error α) : Prop :=
  Resolves x ∧ ∀ a, x = .ok a → P a

namespace Conserves

variable {P : α → Prop} {Q : β → Prop}

theorem pure {a : α} (h : P a) : Conserves (Pure.pure a) P := fun _ hkept => ⟨hkept, h⟩

theorem bind {x : StateM KeptIndexes α} {f : α → StateM KeptIndexes β} (hx : Conserves x P)
    (hf : ∀ a, P a → Conserves (f a) Q) : Conserves (x >>= f) Q := by
  intro kept hkept
  obtain ⟨hmid, ha⟩ := hx kept hkept
  exact hf _ ha _ hmid

theorem bindScanning {x : Scanning α} {f : α → Scanning β} (hx : Conserves x.run (ResolvesWith P))
    (hf : ∀ a, P a → Conserves (f a).run (ResolvesWith Q)) :
    Conserves (x >>= f).run (ResolvesWith Q) := by
  rw [ExceptT.run_bind]
  refine hx.bind fun r hr => ?_
  cases r with
  | error e =>
      exact pure ⟨Resolves.error_iff.2 (Resolves.error_iff.1 hr.1), fun a ha => by cases ha⟩
  | ok a => exact hf a (hr.2 a rfl)

theorem result {r : Except Error α} (h : ResolvesWith P r) :
    Conserves (ExceptT.mk (Pure.pure r) : Scanning α).run (ResolvesWith P) := pure h

theorem mapM {f : α → StateM KeptIndexes β} {xs : List α} (h : ∀ x ∈ xs, Conserves (f x) Q) :
    Conserves (xs.mapM f) fun ys => ∀ y ∈ ys, Q y := by
  induction xs with
  | nil => exact pure fun y hy => by cases hy
  | cons x xs ih =>
      rw [List.mapM_cons]
      refine (h x (List.mem_cons_self ..)).bind fun y hy => ?_
      refine (ih fun x hx => h x (List.mem_cons_of_mem _ hx)).bind fun ys hys => pure ?_
      exact List.forall_mem_cons.2 ⟨hy, hys⟩

theorem mapMScanning {f : α → Scanning β} {xs : List α}
    (h : ∀ x ∈ xs, Conserves (f x).run (ResolvesWith Q)) :
    Conserves (xs.mapM f).run (ResolvesWith fun ys => ∀ y ∈ ys, Q y) := by
  induction xs with
  | nil => exact result ⟨.ok _, fun ys hys => by cases hys; exact fun y hy => by cases hy⟩
  | cons x xs ih =>
      rw [List.mapM_cons]
      refine (h x (List.mem_cons_self ..)).bindScanning fun y hy => ?_
      refine (ih fun x hx => h x (List.mem_cons_of_mem _ hx)).bindScanning fun ys hys => ?_
      refine result ⟨.ok _, fun zs hzs => ?_⟩
      cases hzs
      exact List.forall_mem_cons.2 ⟨hy, hys⟩

end Conserves

namespace Table

variable {t : Table} {schema : TableSchema} {fields : List Field} {task : ScanTask}
  {tasks : List ScanTask}

/-- All that a task refers to is there. -/
structure Finds (t : Table) (schema : TableSchema) (task : ScanTask) : Prop where
  keyFields : ∀ f ∈ task.deletes, ∀ id ∈ f.fieldIds, (schema.findField? id).isSome
  fileSchema : ∃ s, t.log.schemaById task.file.schemaId = .ok s

theorem conserves_loadIndex (hsource : t.source.IsResolving) {f : DeleteFile}
    (hids : ∀ id ∈ f.fieldIds, (schema.findField? id).isSome) :
    Conserves (t.loadIndex schema f).run (ResolvesWith fun i => i.fieldIds ⊆ f.fieldIds) := by
  have hload : Resolves (f.load t.source schema) := DeleteFile.resolves_load hsource hids
  intro kept hkept
  cases kept with
  | none => exact ⟨hkept, hload, fun i hi => DeleteFile.fieldIds_of_load hi⟩
  | some c =>
      change KeepsGiven (t.loadIndex schema f (some c)).2 ∧
        ResolvesWith _ (t.loadIndex schema f (some c)).1
      simp only [loadIndex]
      rcases hcall : IndexCache.getOrLoad f.cacheKey.key (fun s => (f.load t.source schema, s))
        (c, ()) with ⟨o, d, ⟨⟩⟩
      obtain ⟨hentries, hgiven⟩ := IndexCache.of_getOrLoad hcall
      have hkeeps : KeepsGiven (some d) := by
        rintro _ ⟨⟩ e he
        rcases hentries e he with he | ⟨hload, hkey⟩
        · exact hkept c rfl e he
        · exact ⟨f, t.source, schema, hkey.symm, hload⟩
      cases o with
      | waiting => exact ⟨hkeeps, by simp, fun i hi => by cases hi⟩
      | done r =>
          have hr := hgiven r rfl
          cases r with
          | error e =>
              refine ⟨hkeeps, Resolves.error_iff.2 ?_, fun i hi => by cases hi⟩
              rcases hr with hr | rfl
              · exact hload e hr
              · simp
          | ok i =>
              refine ⟨hkeeps, .ok i, fun j hj => ?_⟩
              cases hj
              rcases hr with hmem | hr
              · -- Files with equal keys have the same field ids.
                obtain ⟨g, source, schema', hkey, hg⟩ := hkept c rfl _ hmem
                obtain ⟨-, -, hsame⟩ := DeleteFile.key_cacheKey_eq_iff.1 hkey
                exact hsame ▸ DeleteFile.fieldIds_of_load hg
              · exact DeleteFile.fieldIds_of_load hr

theorem conserves_taskReader (hsource : t.source.IsResolving) (htask : t.Finds schema task) :
    Conserves (t.taskReader schema fields task).run (ResolvesWith Reader.IsResolving) := by
  have hloads : Conserves (t.loadIndexes schema task.deletes).run (ResolvesWith fun is =>
      ∀ i ∈ is, ∀ id ∈ i.fieldIds, (schema.findField? id).isSome) := by
    refine Conserves.mapMScanning fun f hf => ?_
    intro kept hkept
    obtain ⟨hlast, hresolves, hids⟩ :=
      conserves_loadIndex hsource (htask.keyFields f hf) kept hkept
    exact ⟨hlast, hresolves, fun i hi id hid => htask.keyFields f hf id (hids i hi hid)⟩
  exact hloads.bindScanning fun indexes hindexes =>
    .result (resolves_readerOver hsource hindexes htask.fileSchema)

theorem failure_of_liveBatches {r : Reader} (h : r.IsResolving) :
    ∀ e ∈ (liveBatches r).2, ¬e.IsMissing := Reader.resolves_batchesWithin _ h

theorem conserves_readTask (hsource : t.source.IsResolving) (htask : t.Finds schema task) :
    Conserves (t.readTask schema fields task).run (ResolvesWith fun _ => True) := by
  refine (conserves_taskReader hsource htask).bindScanning fun r hr =>
    .result ⟨?_, fun _ _ => trivial⟩
  have hfailure := failure_of_liveBatches hr
  split
  · exact .ok _
  · rename_i heq
    rw [heq] at hfailure
    simpa using hfailure

/-- Tasks that are read one after another fail for nothing that is missing. -/
theorem conserves_readInOrder (hsource : t.source.IsResolving)
    {read : Reader → List α × Option Error}
    (hread : ∀ r : Reader, r.IsResolving → ∀ e ∈ (read r).2, ¬e.IsMissing)
    (htasks : ∀ task ∈ tasks, t.Finds schema task) :
    Conserves (t.readInOrder schema fields read tasks) fun p => ∀ e ∈ p.2, ¬e.IsMissing := by
  induction tasks with
  | nil => exact .pure (by simp)
  | cons task tasks ih =>
      refine (conserves_taskReader hsource (htasks task (List.mem_cons_self ..))).bind
        fun r hr => ?_
      cases r with
      | error e => exact .pure (by simpa using hr.1)
      | ok reader =>
          have hitems := hread reader (hr.2 reader rfl)
          simp only
          split
          · rename_i heq
            rw [heq] at hitems
            exact .pure hitems
          · refine (ih fun task htask => htasks task (List.mem_cons_of_mem _ htask)).bind ?_
            exact fun p hp => .pure hp

/-- So do tasks that are read as a whole, however many at a time. -/
theorem conserves_readTable (hsource : t.source.IsResolving)
    (htasks : ∀ task ∈ tasks, t.Finds schema task) :
    Conserves (t.readTable schema fields tasks).run (ResolvesWith fun _ => True) := by
  have hall : Conserves (t.readAll schema fields tasks).run (ResolvesWith fun _ => True) := by
    have htask : ∀ task ∈ tasks,
        Conserves (t.readTask schema fields task).run (ResolvesWith fun _ => True) :=
      fun task hmem => conserves_readTask hsource (htasks task hmem)
    have hworkers : Resolves t.parallelism := (Resolves.lift Error.not_isMissing_option _).map _
    refine (Conserves.result (P := fun _ => True) ⟨hworkers, fun _ _ => trivial⟩).bindScanning ?_
    intro workers _
    split
    · exact (Conserves.mapMScanning htask).bindScanning fun _ _ =>
        .result ⟨.ok _, fun _ _ => trivial⟩
    · refine Conserves.bindScanning (P := fun rs => ∀ r ∈ rs, Resolves r) ?_ fun results hrs => ?_
      · rw [ExceptT.run_lift]
        refine (Conserves.mapM htask).bind fun results hrs => .pure ⟨.ok _, fun rs h => ?_⟩
        cases h
        exact fun r hr => (hrs r hr).1
      · refine (Conserves.result (P := fun _ => True) ⟨?_, fun _ _ => trivial⟩).bindScanning ?_
        · exact Resolves.mapM hrs
        · exact fun _ _ => .result ⟨.ok _, fun _ _ => trivial⟩
  refine hall.bindScanning fun bs _ => ?_
  have hcolumns : Resolves (columnsOf fields) :=
    (Resolves.lift Error.not_isMissing_type _).bind fun _ _ => .ok _
  refine (Conserves.result (P := fun _ => True) ⟨hcolumns, fun _ _ => trivial⟩).bindScanning ?_
  exact fun _ _ => .result ⟨.ok _, fun _ _ => trivial⟩

end Table

end MergeOnRead
