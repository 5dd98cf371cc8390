import MergeOnRead.Files.RecordReader
import MergeOnRead.Proofs.TreeRows

/-!
# Reading records call by call

A reader takes the records of a file from where the last call has left off.  No record is lost,
repeated or moved, however large batches are: every call takes the next piece of the file, and
behind the last piece there is none for ever (`RecordReader.takesAll`).  What a batch holds depends
on the types that are found from the values of its piece.  The records themselves are handed out if
and only if these types keep all values, as they do where a field has values of one kind
(`RecordFile.keeps_of_kinds`); records whose values have no type in common make no batch
(`RecordReader.not_readsAll_mixedFile`).

Strategy:

* `RecordFile.fits_of_batch` and `RecordFile.batch_of_fits` say which records make a batch, and
  `RecordFile.keeps_iff` when it holds the records themselves;
* `RecordReader.gather_eq`: the loop of a call splits the records that are left;
* `RecordReader.readBatch_stream`: one call comes to the head of the stream of batches and leaves
  its tail, in whichever way the file goes on; `RecordReader.outcome_eq` is about all calls, by
  induction;
* `RecordFile.readsAll_iff`: batches are full, one after the other, exactly as the pieces are.
-/

namespace MergeOnRead

/-! ## Batches of records -/

namespace RecordFile

variable {f : RecordFile} {records : List (List Value)} {names : List String} {b : Batch}

/-- A record with the fields that are asked for. -/
def project (f : RecordFile) (names : List String) (record : List Value) : List Value :=
  names.map fun name => f.fieldIn name record

/-- For every field a common type is found for what the records have in it, and takes all of it. -/
def Fits (f : RecordFile) (names : List String) (records : List (List Value)) : Prop :=
  ∀ name ∈ names, ∃ type, ColumnType.ofValues? (records.map (f.fieldIn name)) = some type ∧
    ∀ record ∈ records, ∃ v, type.take (f.fieldIn name record) = .ok v

/-- The types that are found hold what the records have unchanged. -/
def Keeps (f : RecordFile) (names : List String) (records : List (List Value)) : Prop :=
  ∀ name ∈ names, ∃ type, ColumnType.ofValues? (records.map (f.fieldIn name)) = some type ∧
    ∀ record ∈ records, type.take (f.fieldIn name record) = .ok (f.fieldIn name record)

/-- A record as its batch holds it. -/
def held (f : RecordFile) (records : List (List Value)) (names : List String)
    (record : List Value) : List Value :=
  names.map fun name => f.valueIn records name record

theorem Keeps.fits (h : f.Keeps names records) : f.Fits names records := by
  intro name hname
  obtain ⟨type, htype, htake⟩ := h name hname
  exact ⟨type, htype, fun record hrecord => ⟨_, htake record hrecord⟩⟩

/-- Columns that are computed record by record make rows record by record. -/
theorem transpose_map_map {α β : Type} (xs : List α) (ys : List β) (value : β → α → Value) :
    Batch.transpose xs.length (ys.map fun y => xs.map (value y)) =
      xs.map fun x => ys.map fun y => value y x := by
  induction xs with
  | nil => rfl
  | cons x xs ih =>
    rw [List.length_cons, Batch.transpose, List.map_map, List.map_map, List.map_cons, ← ih]
    rfl

theorem typeIn_eq {type : ColumnType} {name : String}
    (htype : ColumnType.ofValues? (records.map (f.fieldIn name)) = some type) :
    f.typeIn records name = type := by
  unfold typeIn
  rw [htype, Option.getD_some]

theorem valueIn_eq {type : ColumnType} {name : String} {record : List Value} {v : Value}
    (htype : ColumnType.ofValues? (records.map (f.fieldIn name)) = some type)
    (htake : type.take (f.fieldIn name record) = .ok v) : f.valueIn records name record = v := by
  unfold valueIn
  rw [typeIn_eq htype, htake]
  rfl

theorem column_eq_ok_iff {name : String} {values : List Value}
    {column : ColumnHeader × List Value} : RecordFile.column name values = .ok column ↔
      ∃ type, ColumnType.ofValues? values = some type ∧ (⟨name, type⟩, values) = column := by
  unfold RecordFile.column
  cases ColumnType.ofValues? values with
  | none => simp
  | some type => simp

/-- A batch of different fields has a column for each of them. -/
theorem batch_eq (hnames : names.Nodup) : f.batch names records =
    (names.mapM fun name => RecordFile.column name (records.map (f.fieldIn name))) >>=
      Batch.ofColumns := by
  unfold batch
  rw [eraseDups_of_nodup hnames]
  congr 1
  refine mapM_congr fun name hname => ?_
  show RecordFile.column name (stutter (names.count name) (records.map (f.fieldIn name))) = _
  rw [stutter_count hnames hname]

/-- A batch is made only of records that fit. -/
theorem fits_of_batch (hnames : names.Nodup) (h : f.batch names records = .ok b) :
    f.Fits names records := by
  rw [batch_eq hnames] at h
  obtain ⟨columns, hcolumns, h⟩ := bind_eq_ok_iff.1 h
  obtain ⟨values, hvalues, -⟩ := bind_eq_ok_iff.1 h
  intro name hname
  obtain ⟨column, hcolumn, hmade⟩ := exists_of_mapM_eq_ok hcolumns hname
  obtain ⟨type, htype, rfl⟩ := column_eq_ok_iff.1 hmade
  refine ⟨type, htype, fun record hrecord => ?_⟩
  obtain ⟨taken, -, htaken⟩ := exists_of_mapM_eq_ok hvalues hcolumn
  obtain ⟨v, -, hv⟩ := exists_of_mapM_eq_ok htaken (List.mem_map_of_mem hrecord)
  exact ⟨v, hv⟩

/-- The rows of a batch are its records, as it holds them. -/
theorem rows_of_batch (hnames : names.Nodup) (hne : names ≠ [])
    (h : f.batch names records = .ok b) :
    b.names = names ∧ b.rows = records.map (f.held records names) := by
  obtain ⟨hheader, hrows⟩ := batch_eq_ok hnames hne h
  refine ⟨?_, hrows.trans (transpose_map_map records names (f.valueIn records))⟩
  rw [Batch.names, hheader, List.map_map]
  exact List.map_id names

/-- Columns make a batch when all their values are taken, and all are of one length. -/
theorem ofColumns_eq (columns : List (ColumnHeader × List Value)) : Batch.ofColumns columns =
    columns.mapM (fun column => column.2.mapM column.1.type.take) >>= fun values =>
      if values.all fun c => c.length == (values.headD []).length then
        .ok { header := columns.map (·.1), rows := Batch.transpose (values.headD []).length values }
      else .error .badColumn :=
  rfl

/-- Records that fit make a batch. -/
theorem batch_of_fits (hnames : names.Nodup) (h : f.Fits names records) :
    ∃ b, f.batch names records = .ok b := by
  have hcolumns : (names.mapM fun name => RecordFile.column name (records.map (f.fieldIn name))) =
      .ok (names.map fun name =>
        (⟨name, f.typeIn records name⟩, records.map (f.fieldIn name))) := by
    refine mapM_eq_ok_map fun name hname => ?_
    obtain ⟨type, htype, -⟩ := h name hname
    refine column_eq_ok_iff.2 ⟨type, htype, ?_⟩
    rw [typeIn_eq htype]
  have hvalues : (names.map fun name =>
      ((⟨name, f.typeIn records name⟩ : ColumnHeader), records.map (f.fieldIn name))).mapM
      (fun column => column.2.mapM column.1.type.take) =
      .ok (names.map fun name => records.map (f.valueIn records name)) := by
    rw [List.mapM_map]
    refine mapM_eq_ok_map fun name hname => ?_
    obtain ⟨type, htype, htake⟩ := h name hname
    show (records.map (f.fieldIn name)).mapM (f.typeIn records name).take = _
    rw [List.mapM_map]
    refine mapM_eq_ok_map fun record hrecord => ?_
    obtain ⟨v, hv⟩ := htake record hrecord
    rw [valueIn_eq htype hv, Function.comp_apply, typeIn_eq htype, hv]
  rw [batch_eq hnames, hcolumns, ok_bind, ofColumns_eq, hvalues, ok_bind]
  refine ⟨_, if_pos ?_⟩
  rw [List.all_eq_true]
  intro column hcolumn
  obtain ⟨name, hname, rfl⟩ := List.mem_map.1 hcolumn
  obtain ⟨first, others, rfl⟩ := List.exists_cons_of_ne_nil (List.ne_nil_of_mem hname)
  simp

/-- **What a batch holds**: the records themselves, if and only if the types that are found keep
them. -/
theorem keeps_iff (hnames : names.Nodup) (hne : names ≠ []) : f.Keeps names records ↔
    ∃ b, f.batch names records = .ok b ∧ b.rows = records.map (f.project names) := by
  constructor
  · intro h
    obtain ⟨b, hb⟩ := batch_of_fits hnames h.fits
    refine ⟨b, hb, (rows_of_batch hnames hne hb).2.trans ?_⟩
    refine List.map_congr_left fun record hrecord => List.map_congr_left fun name hname => ?_
    obtain ⟨type, htype, htake⟩ := h name hname
    exact valueIn_eq htype (htake record hrecord)
  · rintro ⟨b, hb, hrows⟩ name hname
    obtain ⟨type, htype, htake⟩ := fits_of_batch hnames hb name hname
    refine ⟨type, htype, fun record hrecord => ?_⟩
    obtain ⟨v, hv⟩ := htake record hrecord
    rw [(rows_of_batch hnames hne hb).2] at hrows
    have hsame := List.map_inj_left.1 (List.map_inj_left.1 hrows record hrecord) name hname
    rw [hv, ← valueIn_eq htype hv, hsame]

/-! ## Columns of one kind -/

variable {kind : FlatType}

theorem join_null (kind : FlatType) :
    ColumnType.join (.flat kind) (.flat .null) = some (.flat kind) := by
  cases kind <;> simp [ColumnType.join]

theorem join_kind (h : kind.join kind = some kind) {start : ColumnType}
    (hstart : start = .flat .null ∨ start = .flat kind) :
    start.join (.flat kind) = some (.flat kind) := by
  rcases hstart with rfl | rfl
  · rw [ColumnType.join]
  · cases kind <;> simp_all [ColumnType.join]

/-- Types that are null or of one kind are joined to the kind, if it is among them. -/
theorem joinAll_of_kind (hkind : kind.join kind = some kind) {types : List ColumnType}
    (h : ∀ type ∈ types, type = .flat .null ∨ type = .flat kind) {start : ColumnType}
    (hstart : start = .flat .null ∨ start = .flat kind) :
    ∃ type, types.foldlM ColumnType.join start = some type ∧
      (type = .flat kind ∨ type = start ∧ ∀ t ∈ types, t = .flat .null) := by
  induction types generalizing start with
  | nil => exact ⟨start, rfl, Or.inr ⟨rfl, by simp⟩⟩
  | cons type types ih =>
    rw [List.forall_mem_cons] at h
    rw [List.foldlM_cons]
    rcases h.1 with rfl | rfl
    · have hjoin : start.join (.flat .null) = some start := by
        rcases hstart with rfl | rfl <;> exact join_null _
      obtain ⟨found, hfound, hcases⟩ := ih h.2 hstart
      rw [hjoin]
      refine ⟨found, hfound, hcases.imp_right fun ⟨hsame, hnull⟩ => ⟨hsame, ?_⟩⟩
      exact List.forall_mem_cons.2 ⟨rfl, hnull⟩
    · obtain ⟨found, hfound, hcases⟩ := ih h.2 (Or.inr rfl)
      rw [join_kind hkind hstart]
      exact ⟨found, hfound, Or.inl (hcases.elim id fun hsame => hsame.1)⟩

/-- The type of a value that is null or of a kind. -/
def nullOr (kind : FlatType) (v : Value) : ColumnType :=
  if v.isNull then .flat .null else .flat kind

theorem columnType?_eq_nullOr {s : Scalar} (h : s.columnType? = some kind) :
    (Value.scalar s).columnType? = some (nullOr kind (.scalar s)) := by
  rw [Value.columnType?, h]
  cases s
  case null =>
    cases h
    rfl
  all_goals rfl

theorem take_scalar {s : Scalar} (h : kind.take s = .ok s) :
    (ColumnType.flat kind).take (.scalar s) = .ok (.scalar s) := by
  cases s
  case null => rw [ColumnType.take]
  all_goals simp only [ColumnType.take, h, Except.map]

/-- Of values that are null or of one kind this kind is found, unless all of them are null. -/
theorem exists_ofValues?_eq (hkind : kind.join kind = some kind) {values : List Value}
    (h : ∀ v ∈ values, v.columnType? = some (nullOr kind v)) :
    ∃ found, ColumnType.ofValues? values = some found ∧
      (found = .flat kind ∨ found = .flat .null ∧ ∀ v ∈ values, nullOr kind v = .flat .null) := by
  have htypes : values.mapM Value.columnType? = some (values.map (nullOr kind)) := by
    rw [mapM_eq_some_iff, List.forall₂_map_right_iff]
    exact List.forall₂_same.2 h
  have hkinds : ∀ type ∈ values.map (nullOr kind), type = .flat .null ∨ type = .flat kind := by
    intro type htype
    obtain ⟨v, -, rfl⟩ := List.mem_map.1 htype
    exact ite_eq_or_eq ..
  obtain ⟨found, hfound, hcases⟩ := joinAll_of_kind hkind hkinds (Or.inl rfl)
  refine ⟨found, ?_, hcases.imp_right fun ⟨hnull, hnulls⟩ => ⟨hnull, fun v hv => ?_⟩⟩
  · unfold ColumnType.ofValues?
    rw [htypes]
    exact hfound
  · exact hnulls _ (List.mem_map_of_mem hv)

/-- Fields in which all values are null or of one kind, and fit into the columns of this kind, are
kept. -/
theorem keeps_of_kinds {records : List (List Value)}
    (h : ∀ name ∈ names, ∃ kind : FlatType, kind.join kind = some kind ∧
      ∀ record ∈ records, f.fieldIn name record = .null ∨
        ∃ s, f.fieldIn name record = .scalar s ∧ s.columnType? = some kind ∧ kind.take s = .ok s) :
    f.Keeps names records := by
  intro name hname
  obtain ⟨kind, hkind, hvalues⟩ := h name hname
  have htyped : ∀ v ∈ records.map (f.fieldIn name), v.columnType? = some (nullOr kind v) := by
    intro v hv
    obtain ⟨record, hrecord, rfl⟩ := List.mem_map.1 hv
    rcases hvalues record hrecord with hnull | ⟨s, hs, htype, -⟩
    · rw [hnull]
      rfl
    · rw [hs]
      exact columnType?_eq_nullOr htype
  obtain ⟨found, hfound, hcases⟩ := exists_ofValues?_eq hkind htyped
  refine ⟨found, hfound, fun record hrecord => ?_⟩
  rcases hvalues record hrecord with hnull | ⟨s, hs, htype, htake⟩
  · rw [hnull, ColumnType.take]
  · -- where only nulls are found, the kind is that of nulls
    have hkindFound : found = .flat kind := by
      refine hcases.elim id fun ⟨hnull, hnulls⟩ => ?_
      have hmem := List.mem_map_of_mem (f := f.fieldIn name) hrecord
      have hscalar := htyped _ hmem
      rw [hnulls _ hmem, hs, Value.columnType?, htype] at hscalar
      exact hnull.trans (Option.some.inj hscalar).symm
    rw [hkindFound, hs]
    exact take_scalar htake

/-! ## The stream of a file, from one batch to the next -/

/-- The file without the records that were taken. -/
def behind (f : RecordFile) (records : List (List Value)) : RecordFile :=
  { f with records }

variable {size : Nat}

theorem stream_of_failure_none (h : f.failure = none) (size : Nat) (names : List String) :
    f.stream size names = (chunks size f.records).map (f.batch names) := by
  unfold stream
  rw [h, ← chunks_max_one]

theorem stream_of_failure {e : Error} (h : f.failure = some e) (size : Nat) (names : List String) :
    f.stream size names =
      (chunks size (f.records.take (f.records.length / max 1 size * max 1 size))).map
        (f.batch names) ++ [.error e] := by
  unfold stream
  rw [h, ← chunks_max_one]

/-- While a batch can be filled, or the file ends undamaged, the next records make a batch. -/
theorem stream_more
    (h : max 1 size ≤ f.records.length ∨ f.failure = none ∧ f.records ≠ []) :
    f.stream size names = f.batch names (f.records.take (max 1 size)) ::
      (f.behind (f.records.drop (max 1 size))).stream size names := by
  have hne : f.records ≠ [] := by
    rcases h with hfull | ⟨-, hne⟩
    · exact List.length_pos_iff.1 (by omega)
    · exact hne
  have hbehind : (f.behind (f.records.drop (max 1 size))).failure = f.failure := rfl
  cases hfailure : f.failure with
  | none =>
    rw [hfailure] at hbehind
    rw [stream_of_failure_none hfailure, stream_of_failure_none hbehind, chunks_of_ne_nil size hne]
    rfl
  | some e =>
    have hfull : max 1 size ≤ f.records.length := by
      rcases h with hfull | ⟨hnone, -⟩
      · exact hfull
      · rw [hfailure] at hnone
        cases hnone
    rw [hfailure] at hbehind
    have hcount : f.records.length / max 1 size * max 1 size =
        (f.records.length - max 1 size) / max 1 size * max 1 size + max 1 size := by
      rw [Nat.div_eq_sub_div (by omega) hfull, Nat.succ_mul]
    rw [stream_of_failure hfailure, stream_of_failure hbehind, hcount, chunks_of_ne_nil]
    · rw [List.take_take, List.drop_take, Nat.add_sub_cancel, Nat.min_eq_left (by omega)]
      show _ = _ :: ((chunks size ((f.records.drop _).take
        ((f.records.drop (max 1 size)).length / _ * _))).map _ ++ _)
      rw [List.length_drop]
      rfl
    · rw [← List.length_pos_iff, List.length_take]
      omega

/-- Damage behind too few records for a batch fails at once. -/
theorem stream_failed {e : Error} (hfailure : f.failure = some e)
    (hshort : f.records.length < max 1 size) : f.stream size names = [.error e] := by
  rw [stream_of_failure hfailure, Nat.div_eq_of_lt hshort, Nat.zero_mul]
  rfl

theorem stream_end (hfailure : f.failure = none) (hend : f.records = []) :
    f.stream size names = [] := by
  rw [stream_of_failure_none hfailure, hend]
  rfl

end RecordFile

/-! ## Call by call -/

namespace RecordReader

variable {reader : RecordReader} {size : Int}

/-- The loop takes as many records as make a batch, and leaves all others. -/
theorem gather_eq (size : Int) (count : Nat) (records : List (List Value)) :
    gather size count records =
      (records.take (max 1 (size.toNat - count)), records.drop (max 1 (size.toNat - count)),
        decide (max 1 (size.toNat - count) ≤ records.length)) := by
  induction records generalizing count with
  | nil =>
    unfold gather
    simp
  | cons record records ih =>
    unfold gather
    split
    · have hlast : max 1 (size.toNat - count) = 1 := by omega
      rw [hlast]
      simp
    · have hmore : max 1 (size.toNat - count) = max 1 (size.toNat - (count + 1)) + 1 := by omega
      rw [ih, hmore]
      simp

/-- The reader in front of other records of its file. -/
def behind (reader : RecordReader) (file : RecordFile) : RecordReader := { reader with file }

/-- One call takes the records of one batch. -/
theorem readBatch_more (h : max 1 reader.batchSize.toNat ≤ reader.file.records.length ∨
      reader.file.failure = none ∧ reader.file.records ≠ []) :
    reader.readBatch =
      ((reader.file.batch reader.names
          (reader.file.records.take (max 1 reader.batchSize.toNat))).map some,
        reader.behind (reader.file.behind
          (reader.file.records.drop (max 1 reader.batchSize.toNat)))) := by
  have htaken : (reader.file.records.take (max 1 reader.batchSize.toNat)).isEmpty = false := by
    rw [List.isEmpty_eq_false_iff, ← List.length_pos_iff, List.length_take]
    rcases h with hfull | ⟨-, hne⟩
    · omega
    · have := List.length_pos_iff.2 hne
      omega
  obtain ⟨⟨fileNames, records, failure⟩, names, batchSize⟩ := reader
  unfold readBatch
  rw [gather_eq, Nat.sub_zero]
  simp only at h htaken ⊢
  rcases h with hfull | ⟨hfailure, -⟩
  · simp only [hfull, htaken, decide_true]
    rfl
  · cases hfailure
    simp only [htaken]
    cases decide (max 1 batchSize.toNat ≤ records.length) <;> rfl

/-- At the undamaged end of the file there is none. -/
theorem readBatch_end (hfailure : reader.file.failure = none) (hend : reader.file.records = []) :
    reader.readBatch = (.ok none, reader) := by
  obtain ⟨⟨fileNames, records, failure⟩, names, batchSize⟩ := reader
  cases hfailure
  cases hend
  rfl

/-- Damage behind too few records for a batch fails the call, and ends the file. -/
theorem readBatch_failed {e : Error} (hfailure : reader.file.failure = some e)
    (hshort : reader.file.records.length < max 1 reader.batchSize.toNat) :
    reader.readBatch =
      (.error e, reader.behind { reader.file with records := [], failure := none }) := by
  unfold readBatch
  rw [gather_eq, Nat.sub_zero]
  simp only [Nat.not_le.2 hshort, hfailure, decide_false]
  rfl

/-- The batches that are still to come. -/
def stream (reader : RecordReader) : BatchStream :=
  reader.file.stream reader.batchSize.toNat reader.names

/-- One call comes to the first batch of the stream, and the others are still to come. -/
theorem readBatch_stream (reader : RecordReader) :
    reader.readBatch.1 = (reader.stream.head?.map (Except.map some)).getD (.ok none) ∧
      reader.readBatch.2.stream = reader.stream.tail := by
  unfold stream
  by_cases hmore : max 1 reader.batchSize.toNat ≤ reader.file.records.length ∨
      reader.file.failure = none ∧ reader.file.records ≠ []
  · rw [readBatch_more hmore, RecordFile.stream_more hmore]
    exact ⟨rfl, rfl⟩
  · obtain ⟨hshort, hrest⟩ := not_or.1 hmore
    cases hfailure : reader.file.failure with
    | none =>
      have hend : reader.file.records = [] := not_not.1 fun hne => hrest ⟨hfailure, hne⟩
      rw [readBatch_end hfailure hend, RecordFile.stream_end hfailure hend]
      exact ⟨rfl, rfl⟩
    | some e =>
      rw [readBatch_failed hfailure (Nat.not_le.1 hshort),
        RecordFile.stream_failed hfailure (Nat.not_le.1 hshort)]
      exact ⟨rfl, RecordFile.stream_end rfl rfl⟩

/-- **Calls in a row** come to the batches of the stream of the file, one after the other, and to
none for ever behind them. -/
theorem outcome_eq (reader : RecordReader) (call : Nat) :
    reader.outcome call = (reader.stream[call]?.map (Except.map some)).getD (.ok none) := by
  induction call generalizing reader with
  | zero => rw [outcome, (readBatch_stream reader).1, List.head?_eq_getElem?]
  | succ call ih => rw [outcome, ih, (readBatch_stream reader).2, List.getElem?_tail]

end RecordReader

/-! ## All records of a file -/

namespace RecordFile

variable {f : RecordFile} {names : List String} {size : Int} {taken : List (List (List Value))}
  {batches : List Batch}

/-- The records that the calls of a reader take, one piece a call. -/
def pieces (f : RecordFile) (size : Int) : List (List (List Value)) := chunks size.toNat f.records

/-- The calls of a reader come to batches, and then to none for ever.  The rows of the batches are
the records of the file, one behind the other; all batches but the last are full, and none is
empty. -/
def ReadsAll (f : RecordFile) (names : List String) (size : Int) : Prop :=
  ∃ batches : List Batch,
    (∀ call, (RecordReader.mk f names size).outcome call = .ok batches[call]?) ∧
    batches.flatMap (·.rows) = f.records.map (f.project names) ∧
    (∀ b ∈ batches, b.names = names ∧ b.rows ≠ []) ∧
    ∀ b ∈ batches.dropLast, (b.size : Int) = max 1 size

/-- Pieces, and the batches that they come in. -/
def Batched (f : RecordFile) (names : List String) (taken : List (List (List Value)))
    (batches : List Batch) : Prop :=
  List.Forall₂ (fun piece b => f.batch names piece = .ok b) taken batches

theorem stream_eq (hfailure : f.failure = none) :
    (RecordReader.mk f names size).stream = (f.pieces size).map (f.batch names) :=
  stream_of_failure_none hfailure ..

/-- The calls come to batches in which the pieces of the file come. -/
theorem batched_iff (hfailure : f.failure = none) :
    f.Batched names (f.pieces size) batches ↔
      ∀ call, (RecordReader.mk f names size).outcome call = .ok batches[call]? := by
  have hpairs : f.Batched names (f.pieces size) batches ↔
      (f.pieces size).map (f.batch names) = batches.map Except.ok := by
    rw [← List.forall₂_eq_eq_eq, List.forall₂_map_left_iff, List.forall₂_map_right_iff]
    rfl
  simp only [hpairs, RecordReader.outcome_eq, stream_eq hfailure]
  constructor
  · intro h call
    rw [h, List.getElem?_map]
    cases batches[call]? with
    | none => rfl
    | some b => rfl
  · intro h
    refine List.ext_getElem? fun call => ?_
    have hcall := h call
    rw [List.getElem?_map (f := Except.ok)]
    revert hcall
    cases ((f.pieces size).map (f.batch names))[call]? with
    | none =>
      intro hcall
      rw [← Except.ok.inj hcall]
      rfl
    | some r =>
      intro hcall
      obtain ⟨b, rfl, hb⟩ := map_eq_ok_iff.1 hcall
      rw [← hb]
      rfl

/-- Every batch has as many rows as its piece has records. -/
theorem Batched.sizes (h : f.Batched names taken batches) (hnames : names.Nodup)
    (hne : names ≠ []) :
    batches.map (·.size) = taken.map List.length := by
  rw [← List.forall₂_eq_eq_eq, List.forall₂_map_left_iff, List.forall₂_map_right_iff]
  refine h.flip.imp fun b piece hb => ?_
  rw [Batch.size, (rows_of_batch hnames hne hb).2, List.length_map]

/-- The rows of the batches are the records if and only if every piece is kept. -/
theorem Batched.rows_iff (h : f.Batched names taken batches) (hnames : names.Nodup)
    (hne : names ≠ []) :
    batches.flatMap (·.rows) = taken.flatten.map (f.project names) ↔
      ∀ piece ∈ taken, f.Keeps names piece := by
  induction h with
  | nil => simp
  | @cons piece b taken batches hb hrest ih =>
    rw [List.forall_mem_cons, ← ih, keeps_iff hnames hne, List.flatMap_cons, List.flatten_cons,
      List.map_append]
    have hlength : b.rows.length = (piece.map (f.project names)).length := by
      rw [(rows_of_batch hnames hne hb).2, List.length_map, List.length_map]
    rw [List.append_eq_append_iff_of_size_eq_left hlength]
    refine and_congr_left fun _ => ⟨fun hrows => ⟨b, hb, hrows⟩, ?_⟩
    rintro ⟨b', hb', hrows⟩
    obtain rfl := Except.ok.inj (hb.symm.trans hb')
    exact hrows

/-- Pieces that are kept come in batches. -/
theorem exists_batched (hnames : names.Nodup) (h : ∀ piece ∈ taken, f.Keeps names piece) :
    ∃ batches, f.Batched names taken batches := by
  obtain ⟨batches, hbatches⟩ := exists_mapM_eq_ok fun piece hpiece =>
    batch_of_fits hnames (h piece hpiece).fits
  exact ⟨batches, mapM_eq_ok_iff.1 hbatches⟩

/-- **All records are read**, in order and each once, if and only if the types that are found in
each piece keep its values. -/
theorem readsAll_iff (hfailure : f.failure = none) (hnames : names.Nodup) (hne : names ≠ []) :
    f.ReadsAll names size ↔ ∀ piece ∈ f.pieces size, f.Keeps names piece := by
  have hall : (f.pieces size).flatten = f.records := flatten_chunks ..
  constructor
  · rintro ⟨batches, hcalls, hrows, -⟩
    rw [← hall] at hrows
    exact (((batched_iff hfailure).2 hcalls).rows_iff hnames hne).1 hrows
  · intro h
    obtain ⟨batches, hbatched⟩ := exists_batched hnames h
    have hrows := (hbatched.rows_iff hnames hne).2 h
    rw [hall] at hrows
    have hsizes := hbatched.sizes hnames hne
    refine ⟨batches, (batched_iff hfailure).1 hbatched, hrows, fun b hb => ?_, fun b hb => ?_⟩
    · obtain ⟨piece, hpiece, hbatch⟩ := exists_mem_of_forall₂ hbatched hb
      obtain ⟨hheader, hheld⟩ := rows_of_batch hnames hne hbatch
      refine ⟨hheader, fun hnil => ne_nil_of_mem_chunks hpiece ?_⟩
      rwa [hheld, List.map_eq_nil_iff] at hnil
    · have hsize : b.size ∈ (batches.map (·.size)).dropLast := by
        rw [← List.map_dropLast]
        exact List.mem_map_of_mem hb
      rw [hsizes, ← List.map_dropLast] at hsize
      obtain ⟨piece, hpiece, hlength⟩ := List.mem_map.1 hsize
      have := length_of_mem_dropLast_chunks hpiece
      omega

end RecordFile

/-! ## The reader of a file -/

/-- Files are read from a tree by such readers. -/
theorem FileTree.openFound_eq (t : FileTree) (batchSize : Int) (path : String)
    (names : List String) : t.openFound batchSize path names =
      (t.openFile path >>= recordsIn >>= fun f =>
        ((RecordReader.ofFile f path names batchSize).map RecordReader.stream).mapError fun e =>
          .scan (.undecodableFile FileFormat.avro.name e) (some path)) := by
  unfold openFound demand
  rw [bind_assoc]
  refine bind_congr fun file => bind_congr fun f => ?_
  unfold RecordReader.ofFile
  simp only
  split_ifs <;> rfl

namespace RecordReader

open RecordFile

variable {f : RecordFile} {names : List String}

theorem ofFile_of_subset (h : names ⊆ f.names) (path : String) (size : Int) :
    ofFile f path names size = .ok ⟨f, names, size⟩ := by
  have hnone : (names.filter fun name => !f.names.contains name) = [] := by
    rw [List.filter_eq_nil_iff]
    intro name hname
    simp [h hname]
  unfold ofFile
  simp only [hnone, List.isEmpty_nil, if_true]

theorem ofFile_of_not_subset (h : ¬names ⊆ f.names) (path : String) (size : Int) :
    ofFile f path names size = .error
      (.missingColumns (names.filter (· ∉ f.names)) FileFormat.avro.name path) := by
  have hmissing : (names.filter fun name => !f.names.contains name) =
      names.filter (· ∉ f.names) := by
    refine List.filter_congr fun name _ => ?_
    rw [List.contains_eq_mem, decide_not]
  have hsome : (names.filter (· ∉ f.names)).isEmpty = false := by
    rw [List.isEmpty_eq_false_iff]
    intro hnil
    refine h fun name hname => not_not.1 fun hmiss => ?_
    exact List.filter_eq_nil_iff.1 hnil name hname (decide_eq_true hmiss)
  unfold ofFile
  simp only [hmissing, hsome, Bool.false_eq_true, if_false]

/-- What becomes of the records of a file, whatever their values are. -/
structure TakesAll (f : RecordFile) (path : String) (names : List String) (size : Int) : Prop where
  /-- A reader is made if and only if all columns that are asked for are present. -/
  made_iff : (∃ reader, ofFile f path names size = .ok reader) ↔ names ⊆ f.names
  made : ∀ reader, ofFile f path names size = .ok reader → reader = ⟨f, names, size⟩
  /-- Else the missing ones are named, in the order in which they are asked for. -/
  refused : ∀ e, ofFile f path names size = .error e →
    e = .missingColumns (names.filter (· ∉ f.names)) FileFormat.avro.name path
  /-- Every record is in one piece, in the order of the file. -/
  flatten_pieces : (f.pieces size).flatten = f.records
  /-- Only the last piece may be shorter than a batch, and none is empty. -/
  full_pieces : ∀ piece ∈ (f.pieces size).dropLast, (piece.length : Int) = max 1 size
  some_pieces : ∀ piece ∈ f.pieces size, piece ≠ [] ∧ (piece.length : Int) ≤ max 1 size
  /-- Every call takes one piece, whether it fails or not, and there is none for ever behind the
  last one. -/
  calls : ∀ call, outcome call ⟨f, names, size⟩ =
    ((f.pieces size)[call]?.map fun piece => (f.batch names piece).map some).getD (.ok none)
  /-- A call makes a batch if and only if types are found that take the values of its piece. -/
  batch_iff : ∀ piece ∈ f.pieces size, (∃ b, f.batch names piece = .ok b) ↔ f.Fits names piece
  /-- The rows of a batch are the records of its piece, with their values as the types hold them. -/
  rows : ∀ piece ∈ f.pieces size, ∀ b, f.batch names piece = .ok b →
    b.names = names ∧ b.rows = piece.map (f.held piece names)
  /-- The calls hand out the records themselves if and only if the types keep their values. -/
  readsAll_iff : f.ReadsAll names size ↔ ∀ piece ∈ f.pieces size, f.Keeps names piece

/-- **No record is lost, repeated or moved.** -/
theorem takesAll (hfailure : f.failure = none) (hnames : names.Nodup) (hne : names ≠ [])
    (path : String) (size : Int) : TakesAll f path names size where
  made_iff := by
    refine ⟨fun ⟨reader, hreader⟩ => ?_, fun h => ⟨_, ofFile_of_subset h path size⟩⟩
    by_contra h
    rw [ofFile_of_not_subset h] at hreader
    cases hreader
  made := by
    intro reader hreader
    by_cases h : names ⊆ f.names
    · rw [ofFile_of_subset h] at hreader
      exact (Except.ok.inj hreader).symm
    · rw [ofFile_of_not_subset h] at hreader
      cases hreader
  refused := by
    intro e he
    by_cases h : names ⊆ f.names
    · rw [ofFile_of_subset h] at he
      cases he
    · rw [ofFile_of_not_subset h] at he
      exact (Except.error.inj he).symm
  flatten_pieces := flatten_chunks ..
  full_pieces := by
    intro piece hpiece
    have := length_of_mem_dropLast_chunks hpiece
    omega
  some_pieces := by
    intro piece hpiece
    have := length_le_of_mem_chunks hpiece
    exact ⟨ne_nil_of_mem_chunks hpiece, by omega⟩
  calls := by
    intro call
    rw [outcome_eq, stream_eq hfailure, List.getElem?_map, Option.map_map]
    rfl
  batch_iff := by
    intro piece _
    exact ⟨fun ⟨b, hb⟩ => fits_of_batch hnames hb, batch_of_fits hnames⟩
  rows := by
    intro piece _ b hb
    exact rows_of_batch hnames hne hb
  readsAll_iff := RecordFile.readsAll_iff hfailure hnames hne

/-- A file in which a field has an integer once, and null. -/
def countedFile : RecordFile := ⟨["a"], [[.int 1], [.null], [.int 3]], none⟩

/-- The records of such a file are all read. -/
theorem takesAll_countedFile : TakesAll countedFile "a.avro" ["a"] 2 ∧
    countedFile.ReadsAll ["a"] 2 := by
  have htakes : TakesAll countedFile "a.avro" ["a"] 2 :=
    takesAll rfl (by decide) (by decide) "a.avro" 2
  refine ⟨htakes, htakes.readsAll_iff.2 fun piece hpiece => ?_⟩
  refine keeps_of_kinds fun name hname => ⟨.int .w64, rfl, fun record hrecord => ?_⟩
  have hmem : record ∈ countedFile.records := by
    rw [← htakes.flatten_pieces]
    exact List.mem_flatten.2 ⟨piece, hpiece, hrecord⟩
  obtain rfl := List.mem_singleton.1 hname
  simp only [countedFile, List.mem_cons, List.not_mem_nil, or_false] at hmem
  rcases hmem with rfl | rfl | rfl
  · exact Or.inr ⟨.int 1, rfl, rfl, rfl⟩
  · exact Or.inl rfl
  · exact Or.inr ⟨.int 3, rfl, rfl, rfl⟩

/-- A file in which a field has an integer once, and a text once. -/
def mixedFile : RecordFile := ⟨["a"], [[.int 1], [.text "x"]], none⟩

/-- An integer and a text have no type in common, so that their records make no batch together. -/
theorem not_readsAll_mixedFile : mixedFile.failure = none ∧ ["a"] ⊆ mixedFile.names ∧
    ["a"].Nodup ∧ ["a"] ≠ [] ∧ ¬mixedFile.ReadsAll ["a"] 4096 := by
  refine ⟨rfl, by decide, by decide, by decide, ?_⟩
  rw [RecordFile.readsAll_iff rfl (by decide) (by decide)]
  intro h
  obtain ⟨type, htype, -⟩ := h mixedFile.records (by decide) "a" (by decide)
  have hnone : ColumnType.ofValues? [.int 1, .text "x"] = none := by
    simp [ColumnType.ofValues?, Value.columnType?, Scalar.columnType?, ColumnType.joinAll,
      ColumnType.join, FlatType.join]
  have hvalues : mixedFile.records.map (mixedFile.fieldIn "a") = [.int 1, .text "x"] := by
    decide
  rw [hvalues, hnone] at htype
  cases htype

end RecordReader

end MergeOnRead
