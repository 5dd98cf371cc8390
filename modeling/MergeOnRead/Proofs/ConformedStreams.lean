import MergeOnRead.Proofs.StoredRows

/-!
# Streams that are conformed

A reader of some fields conforms every batch of a stream.  It comes to the end of the stream when
all batches can be conformed (`Reader.batches_conformed_iff`), which they can when their columns can
be converted (`Batch.Castable`, `StoredRows.Delivers.exists_conformed`).
-/

namespace MergeOnRead

/-- The columns of a batch that fields have in a file can be converted to the types of the
fields. -/
def Batch.Castable (b : Batch) (fileFields fields : List Field) : Prop :=
  ∀ f ∈ fields, ∀ name ∈ b.names, name ∈ Field.nameOf? fileFields f.id →
    ∀ type, f.type.columnType = .ok type →
      ∃ values, b.convertHeld (b.names.idxOf name) type = .ok values

namespace Reader

/-- A reader that conforms a stream reads to the end when all batches can be conformed. -/
theorem batches_conformed_iff {names : List (Option String)} {header : List ColumnHeader}
    {stream : BatchStream} {closings : Nat} {bs : List Batch} :
    (conformed names header (.stream stream closings)).batches = (bs, none) ↔
      List.Forall₂ (fun r c => ∃ b, r = .ok b ∧ b.conform names header = .ok c) stream bs := by
  change batchesWithin stream.length _ = _ ↔ _
  induction stream generalizing bs with
  | nil => simp [batchesWithin, eq_comm]
  | cons r stream ih =>
      rw [List.length_cons, batchesWithin, List.forall₂_cons_left_iff]
      cases r with
      | error e => simp [readBatch, Except.map]
      | ok b =>
          cases hconform : b.conform names header with
          | error e => simp [readBatch, Except.map, hconform]
          | ok c =>
              cases hrest : (conformed names header (.stream stream closings)).batchesWithin
                stream.length with
              | mk rest failure =>
                  simp only [hrest, Prod.mk.injEq] at ih
                  simp only [readBatch, Except.map, hconform, hrest, Prod.mk.injEq]
                  constructor
                  · rintro ⟨rfl, hfailure⟩
                    exact ⟨c, rest, ⟨b, rfl, hconform⟩, ih.1 ⟨rfl, hfailure⟩, rfl⟩
                  · rintro ⟨d, others, ⟨b', hb', hd⟩, hothers, rfl⟩
                    cases hb'
                    rw [hconform] at hd
                    cases hd
                    obtain ⟨rfl, hfailure⟩ := ih.2 hothers
                    exact ⟨rfl, hfailure⟩

end Reader

namespace StoredRows

variable {s : StoredRows} {columns : List String} {position : Nat} {b : Batch}
  {stream : BatchStream} {fileFields fields : List Field} {header : List ColumnHeader}

/-- A batch that is delivered can be conformed to fields when the columns that these have in it can
be converted. -/
theorem Holds.exists_conform (hb : s.Holds columns position b) (hnodup : columns.Nodup)
    (hfound : ∀ f ∈ fields, ∀ name ∈ Field.nameOf? fileFields f.id, name ∈ columns)
    (htyped : Field.headers fields = .ok header) (hcast : b.Castable fileFields fields) :
    ∃ c, b.conform (Field.physicalNames fileFields fields) header = .ok c := by
  have hheader := Field.headers_eq_ok htyped
  refine Batch.exists_conform ?_ fun ⟨name, column⟩ hmem => ?_
  · rw [Field.physicalNames, List.length_map, hheader.length_eq]
  · obtain ⟨i, hi, hpair⟩ := List.mem_iff_getElem.1 hmem
    rw [List.length_zip, Field.physicalNames, List.length_map, ← hheader.length_eq, Nat.min_self]
      at hi
    rw [List.getElem_zip, Prod.mk.injEq] at hpair
    obtain ⟨hname, hcolumn⟩ := hpair
    have htype := (hheader.get hi (hheader.length_eq ▸ hi)).2
    simp only [List.get_eq_getElem, hcolumn] at htype
    cases name with
    | none => exact ⟨_, rfl⟩
    | some name =>
        have hsome : name ∈ Field.nameOf? fileFields fields[i].id := by
          simpa [Field.physicalNames] using hname
        have hin : name ∈ b.names := by
          rw [hb.names]
          exact hfound _ (List.getElem_mem hi) name hsome
        obtain ⟨values, hvalues⟩ := hcast _ (List.getElem_mem hi) name hin hsome _ htype
        simp only [Batch.conformColumn,
          Batch.resolveIndex?_indexOf (by rw [hb.names]; exact hnodup) hin, hvalues]
        exact ⟨_, rfl⟩

/-- Batches that can be converted are all conformed. -/
theorem Delivers.exists_conformed (hstream : s.Delivers columns position stream)
    (hnodup : columns.Nodup)
    (hfound : ∀ f ∈ fields, ∀ name ∈ Field.nameOf? fileFields f.id, name ∈ columns)
    (htyped : Field.headers fields = .ok header)
    (hcasts : ∀ b, .ok b ∈ stream → b.Castable fileFields fields) :
    ∃ bs, List.Forall₂ (fun r c => ∃ b, r = .ok b ∧
      b.conform (Field.physicalNames fileFields fields) header = .ok c) stream bs := by
  induction hstream with
  | done => exact ⟨[], .nil⟩
  | @more position b rest hb hrest ih =>
      obtain ⟨c, hc⟩ := hb.exists_conform hnodup hfound htyped (hcasts b (List.mem_cons_self ..))
      obtain ⟨cs, hcs⟩ := ih fun b hb => hcasts b (List.mem_cons_of_mem _ hb)
      exact ⟨c :: cs, .cons ⟨b, rfl, hc⟩ hcs⟩

/-! ## Files of some rows -/

/-- A file of rows, whose columns have some types. -/
def ofRows (type : String → ColumnType) (rows : List (String → Value)) : StoredRows where
  count := rows.length
  type _ := type
  value p name := rows[p]?.elim .null fun row => row name

/-- A source that hands out a file in batches of some sizes, whichever columns are opened. -/
def source (s : StoredRows) (counts : List Nat) : RowSource :=
  fun _ _ names => .ok (s.divided names 0 counts)

theorem eq_batch_of_mem_divided {counts : List Nat}
    (h : .ok b ∈ s.divided columns position counts) :
    ∃ position count, b = s.batch columns position count := by
  induction counts generalizing position with
  | nil => cases h
  | cons count counts ih =>
      rcases List.mem_cons.1 h with h | h
      · exact ⟨position, count, Except.ok.inj h⟩
      · exact ih h

/-- Batches can be converted when their columns have the types that are wanted. -/
theorem castable_of_mem_divided {counts : List Nat}
    (htypes : ∀ f ∈ fields, ∀ name ∈ Field.nameOf? fileFields f.id,
      ∀ p, f.type.columnType = .ok (s.type p name))
    (h : .ok b ∈ s.divided columns position counts) : b.Castable fileFields fields := by
  obtain ⟨position, count, rfl⟩ := eq_batch_of_mem_divided h
  intro f hf name hname hfound type htype
  have hnames : (s.batch columns position count).names = columns := by
    simp [Batch.names, batch, Function.comp_def]
  rw [hnames] at hname ⊢
  have hlt : columns.idxOf name < columns.length := List.idxOf_lt_length_of_mem hname
  have hsource : ((s.batch columns position count).header.getD (columns.idxOf name)
      default).type = type := by
    rw [batch, List.getD_eq_getElem _ _ (by rwa [List.length_map]), List.getElem_map,
      List.getElem_idxOf hlt]
    exact Except.ok.inj ((htypes f hf name hfound position).symm.trans htype)
  exact ⟨_, by rw [Batch.convertHeld, hsource, ColumnType.convertAll_self]⟩

end StoredRows

end MergeOnRead
