import MergeOnRead.Proofs.RepeatedColumns

/-!
# Projections that name columns more than once

A projection may name a column again.  `Table.readTable_of_lastRepeated` says when this does no
harm: when no column of a data file is opened twice, or only the one that is opened last.  Key
columns of deletes are opened behind those that are asked for, so it depends on the deletes of a
task as well.

Strategy:

* `Scan.readFields_again` and `Scan.columnsToRead_again`: the same key fields are read behind the
  fields that are asked for, and the same columns are opened, some of them again;
* `Table.Opens.exists_again`: a data file that is opened once is opened again, and the layers of
  both readers correspond;
* `Scanning.Runs`: tasks are read one after the other, with the indexes that are kept from one to
  the next; `Table.exists_runs` is by induction on such a run, and the indexes are the same in both.

Tasks that several workers read give their results in the order of the tasks
(`Scanning.run_results_eq_ok_iff`).
-/

namespace MergeOnRead

/-! ## The fields that are asked for -/

namespace TableSchema

variable {s : TableSchema} {fields once : List Field} {names : List String}

theorem fieldsNamed_eq_filterMap (h : s.fieldsNamed names = .ok fields) :
    fields = names.filterMap s.findFieldByName? := by
  have hforall := fieldsNamed_eq_ok h
  clear h
  induction hforall with
  | nil => rfl
  | cons hf hrest ih => rw [List.filterMap_cons_some hf, ← ih]

/-- Without repetitions in a projection, there are none among its fields. -/
theorem eraseDups_of_project (hs : s.fields.Nodup) (hfields : s.project (some names) = .ok fields)
    (honce : s.project (some names.eraseDups) = .ok once) : fields.eraseDups = once := by
  have hall : (names.eraseDups.isEmpty || names.eraseDups.contains allColumns) =
      (names.isEmpty || names.contains allColumns) := by
    have hempty : names.eraseDups.isEmpty = names.isEmpty := by
      cases names with
      | nil => rfl
      | cons name names => rw [List.eraseDups_cons]; rfl
    have hcontains : names.eraseDups.contains allColumns = names.contains allColumns := by
      rw [Bool.eq_iff_iff, List.contains_iff_mem, List.contains_iff_mem, List.mem_eraseDups]
    rw [hempty, hcontains]
  rw [project] at hfields honce
  simp only [hall] at honce
  split at hfields
  · rename_i hstar
    rw [if_pos hstar] at honce
    cases hfields
    cases honce
    exact eraseDups_of_nodup hs
  · rename_i hnamed
    rw [if_neg hnamed] at honce
    rw [fieldsNamed_eq_filterMap hfields, fieldsNamed_eq_filterMap honce]
    refine eraseDups_filterMap fun name _ other _ f hname hother => ?_
    have hname' := (of_findLast?_eq_some hname).2
    have hother' := (of_findLast?_eq_some hother).2
    rw [← eq_of_beq hname', eq_of_beq hother']

end TableSchema

/-- Some fields of a schema, which are asked for again. -/
structure Scan.Repetition (schema : TableSchema) (once again : List Field) : Prop where
  erased : again.eraseDups = once
  mem : ∀ f ∈ again, f ∈ schema.fields
  ids : schema.fieldIds.Nodup
  names : schema.fieldNames.Nodup
  named : ∀ f ∈ schema.fields, f.name ≠ ""
  addressable : again.length + schema.fields.length ≤ maxIndex

namespace Scan

variable {schema fileSchema : TableSchema} {dataPath : String} {once again all hidden : List Field}
  {ids : List Int} {columns : List String}

namespace Repetition

variable (h : Repetition schema once again)
include h

theorem mem_iff {f : Field} : f ∈ once ↔ f ∈ again := by
  rw [← h.erased, List.mem_eraseDups]

theorem nodup_ids : (once.map (·.id)).Nodup := by
  have hnodup : once.Nodup := h.erased ▸ nodup_eraseDups again
  refine hnodup.map_on fun f hf g hg hid => ?_
  exact List.inj_on_of_nodup_map h.ids (h.mem f (h.mem_iff.1 hf)) (h.mem g (h.mem_iff.1 hg)) hid

theorem ids_iff (id : Int) : id ∈ once.map (·.id) ↔ id ∈ again.map (·.id) := by
  simp only [List.mem_map, h.mem_iff]

end Repetition

/-- The fields that are read: those that are asked for, once or again, and the hidden ones. -/
structure ReadAgain (once again hidden : List Field) : Prop where
  erased : (again ++ hidden).eraseDups = once ++ hidden
  ids : ((once ++ hidden).map (·.id)).Nodup
  distinct : ((once ++ hidden).map (·.name)).Nodup
  named : ∀ f ∈ once ++ hidden, f.name ≠ ""
  addressable : (again ++ hidden).length ≤ maxIndex

theorem ReadAgain.sub (h : ReadAgain once again hidden) :
    ∀ f ∈ again ++ hidden, f ∈ once ++ hidden :=
  fun _ hf => h.erased ▸ List.mem_eraseDups.2 hf

theorem ReadAgain.sup (h : ReadAgain once again hidden) :
    ∀ f ∈ once ++ hidden, f ∈ again ++ hidden :=
  fun _ hf => List.mem_eraseDups.1 (h.erased ▸ hf)

/-- The same key fields are read behind fields with the same ids. -/
theorem readFields_again (hsame : ∀ id, id ∈ once.map (·.id) ↔ id ∈ again.map (·.id))
    (h : readFields schema dataPath once ids = .ok all) :
    ∃ hidden, all = once ++ hidden ∧
      readFields schema dataPath again ids = .ok (again ++ hidden) := by
  induction ids generalizing once again with
  | nil =>
      cases h
      exact ⟨[], by simp, by simp [readFields]⟩
  | cons id ids ih =>
      -- A key field is missing among both or among neither.
      have hany : (again.any fun f => f.id == id) = once.any fun f => f.id == id := by
        rw [Bool.eq_iff_iff, List.any_eq_true, List.any_eq_true]
        simpa using (hsame id).symm
      rw [readFields] at h ⊢
      rw [hany]
      split at h
      · rename_i hpresent
        rw [if_pos hpresent]
        exact ih hsame h
      · rename_i habsent
        rw [if_neg habsent]
        cases hfound : schema.findField? id with
        | none => simp [hfound] at h
        | some f =>
            simp only [hfound] at h
            have hsame' : ∀ i, i ∈ (once ++ [f]).map (·.id) ↔ i ∈ (again ++ [f]).map (·.id) := by
              intro i
              rw [List.map_append, List.map_append, List.mem_append, List.mem_append, hsame i]
            obtain ⟨hidden, rfl, hagain⟩ := ih hsame' h
            exact ⟨f :: hidden, by simp, by simpa using hagain⟩

theorem Repetition.append (h : Repetition schema once again)
    (hread : readFields schema dataPath once ids = .ok (once ++ hidden)) :
    ReadAgain once again hidden := by
  obtain ⟨⟨hidden', hall, hhidden⟩, hnodup, -⟩ := readFields_eq_ok hread
  obtain rfl := List.append_cancel_left hall
  have hids := hnodup h.nodup_ids
  have hfields : (once ++ hidden).Nodup := .of_map _ hids
  have hmem : ∀ f ∈ once ++ hidden, f ∈ schema.fields := by
    intro f hf
    rcases List.mem_append.1 hf with hf | hf
    · exact h.mem f (h.mem_iff.1 hf)
    · exact hhidden f hf
  constructor
  · -- Hidden fields are new, and each of them is read once.
    have hnew : hidden.removeAll again = hidden := by
      rw [List.removeAll, List.filter_eq_self]
      intro f hf
      have hnot : f ∉ again := fun hin =>
        (List.nodup_append.1 hfields).2.2 f (h.mem_iff.2 hin) f hf rfl
      simpa using hnot
    rw [List.eraseDups_append, h.erased, hnew, eraseDups_of_nodup hfields.of_append_right]
  · exact hids
  · refine hfields.map_on fun f hf g hg hname => ?_
    exact List.inj_on_of_nodup_map h.names (hmem f hf) (hmem g hg) hname
  · exact fun f hf => h.named f (hmem f hf)
  · have hle := (List.subperm_of_subset hfields.of_append_right hhidden).length_le
    have := h.addressable
    rw [List.length_append]
    omega

/-- The columns of fields that are asked for again are those that are opened otherwise, some of
them again. -/
theorem columnsToRead_again (hnames : fileSchema.fieldNames.Nodup) (hids : (all.map (·.id)).Nodup)
    {fields : List Field} (herased : fields.eraseDups = all)
    (h : columnsToRead fileSchema (Field.physicalNames fileSchema.fields all) = .ok columns) :
    ∃ columns', columnsToRead fileSchema (Field.physicalNames fileSchema.fields fields) =
        .ok columns' ∧ columns'.eraseDups = columns ∧
      ∀ f ∈ fields, ∀ name ∈ Field.nameOf? fileSchema.fields f.id, name ∈ columns' := by
  have hphysical : ∀ fields : List Field,
      (Field.physicalNames fileSchema.fields fields).filterMap id =
        fields.filterMap fun f => Field.nameOf? fileSchema.fields f.id := by
    intro fields
    rw [Field.physicalNames, List.filterMap_map]
    rfl
  have hmem : ∀ f ∈ fields, f ∈ all := fun f hf => herased ▸ List.mem_eraseDups.2 hf
  -- Fields with the same column have the same id.
  have hcolumns : (fields.filterMap fun f => Field.nameOf? fileSchema.fields f.id).eraseDups =
      all.filterMap fun f => Field.nameOf? fileSchema.fields f.id := by
    rw [← herased]
    refine eraseDups_filterMap fun f hf g hg name hfn hgn => ?_
    exact List.inj_on_of_nodup_map hids (hmem f hf) (hmem g hg) (nameOf?_injective hnames hfn hgn)
  have hfound : ∀ f ∈ fields, ∀ name ∈ Field.nameOf? fileSchema.fields f.id,
      name ∈ fields.filterMap fun f => Field.nameOf? fileSchema.fields f.id :=
    fun f hf name hname => List.mem_filterMap.2 ⟨f, hf, hname⟩
  rw [columnsToRead, hphysical] at h
  rw [columnsToRead, hphysical]
  cases hopened : fields.filterMap fun f => Field.nameOf? fileSchema.fields f.id with
  | nil =>
      rw [hopened, List.eraseDups_nil] at hcolumns
      rw [← hcolumns] at h
      rw [hopened] at hfound
      refine ⟨columns, h, ?_, fun f hf name hname => by cases hfound f hf name hname⟩
      cases hfields : fileSchema.fields with
      | nil => simp [hfields] at h
      | cons first rest =>
          simp only [hfields, Except.ok.injEq] at h
          rw [← h]
          rfl
  | cons name names =>
      rw [hopened, List.eraseDups_cons] at hcolumns
      rw [← hcolumns] at h
      cases h
      exact ⟨name :: names, rfl, List.eraseDups_cons .., hopened ▸ hfound⟩

end Scan

namespace Table

variable {t : Table} {schema fileSchema : TableSchema} {fields all once again : List Field}
  {file : DataFile} {indexes : List DeleteIndex} {columns : List String} {stream : BatchStream}
  {l : Scan.Layers}

/-! ## The reader of a task -/

/-- The columns of a data file that are opened for some fields. -/
def columnsOpened (t : Table) (schema : TableSchema) (fields : List Field) (file : DataFile)
    (indexes : List DeleteIndex) : Except Error (List String) := do
  let all ← Scan.readFields schema file.path fields (indexes.flatMap (·.fieldIds))
  let fileSchema ← t.log.schemaById file.schemaId
  Scan.columnsToRead fileSchema (Field.physicalNames fileSchema.fields all)

/-- What it takes to open a data file for some fields. -/
structure Opens (t : Table) (schema : TableSchema) (fields : List Field) (file : DataFile)
    (indexes : List DeleteIndex) (all : List Field) (fileSchema : TableSchema)
    (columns : List String) (stream : BatchStream) (l : Scan.Layers) : Prop where
  resolved : Scan.readFields schema file.path fields (indexes.flatMap (·.fieldIds)) = .ok all
  filter : ∃ check, t.checksBounds = .ok check ∧
    DeleteFilter.create file indexes all check = .ok l.filter
  known : t.log.schemaById file.schemaId = .ok fileSchema
  found : Scan.columnsToRead fileSchema (Field.physicalNames fileSchema.fields all) = .ok columns
  opened : t.source file.path file.format columns = .ok stream
  header : Field.headers all = .ok l.header
  path : l.path = file.path
  names : l.names = Field.physicalNames fileSchema.fields all
  asked : l.asked = fields.length
  total : l.total = all.length

/-- A data file that is opened has a reader. -/
theorem readerOver_eq_ok_iff {reader : Reader} :
    t.readerOver schema fields file indexes = .ok reader ↔
      ∃ all fileSchema columns stream l,
        t.Opens schema fields file indexes all fileSchema columns stream l ∧
          reader = l.reader 0 stream := by
  constructor
  · intro h
    obtain ⟨all, hall, h⟩ := bind_eq_ok_iff.1 h
    obtain ⟨check, hcheck, h⟩ := bind_eq_ok_iff.1 h
    obtain ⟨filter, hfilter, h⟩ := bind_eq_ok_iff.1 h
    obtain ⟨fileSchema, hfileSchema, h⟩ := bind_eq_ok_iff.1 h
    obtain ⟨opened, hopened, h⟩ := bind_eq_ok_iff.1 h
    obtain ⟨columns, hcolumns, hopened⟩ := bind_eq_ok_iff.1 hopened
    obtain ⟨stream, hstream, hopened⟩ := bind_eq_ok_iff.1 hopened
    obtain ⟨header, hheader, hopened⟩ := bind_eq_ok_iff.1 hopened
    cases hopened
    cases h
    exact ⟨all, fileSchema, columns, stream,
      ⟨filter, file.path, Field.physicalNames fileSchema.fields all, header, fields.length,
        all.length⟩,
      ⟨hall, ⟨check, hcheck, hfilter⟩, hfileSchema, hcolumns, hstream,
        liftError_eq_ok_iff.1 hheader, rfl, rfl, rfl, rfl⟩, rfl⟩
  · rintro ⟨all, fileSchema, columns, stream, l, h, rfl⟩
    obtain ⟨check, hcheck, hfilter⟩ := h.filter
    rw [readerOver, h.resolved, ok_bind, hcheck, ok_bind, hfilter, ok_bind, h.known, ok_bind,
      Scan.dataReader, h.found, ok_bind, h.opened, ok_bind, liftError_eq_ok_iff.2 h.header,
      Scan.Layers.reader, Scan.Layers.counted, h.path, h.names, h.asked, h.total]
    rfl

/-- Fields that are asked for again lead to no column of the file twice, or else only to the last
one that is opened, and the source hands it out as often. -/
def TellsApart (t : Table) (schema : TableSchema) (fields : List Field) (file : DataFile)
    (indexes : List DeleteIndex) : Prop :=
  ∀ columns, t.columnsOpened schema fields file indexes = .ok columns →
    columns.Nodup ∨ LastRepeated columns ∧ t.source.Repeats file.path file.format columns

/-- Columns that are opened again agree with what is opened otherwise. -/
theorem TellsApart.exists_stream (hapart : t.TellsApart schema again file indexes)
    (hcolumns : t.columnsOpened schema again file indexes = .ok columns)
    (hstream : t.source file.path file.format columns.eraseDups = .ok stream) :
    ∃ stream', t.source file.path file.format columns = .ok stream' ∧
      List.Forall₂ (fun r r' => ∀ b, r = .ok b → ∃ c, r' = .ok c ∧ b.Agrees columns c)
        stream stream' := by
  rcases hapart columns hcolumns with hnodup | ⟨hlast, hrepeats⟩
  · -- The same columns are opened.
    rw [eraseDups_of_nodup hnodup] at hstream
    exact ⟨stream, hstream, List.forall₂_same.2 fun r _ b hb => ⟨b, hb, .refl columns b⟩⟩
  · obtain ⟨stream', hopened, hpicked⟩ := hrepeats stream hstream
    refine ⟨stream', hopened, hpicked.imp fun r r' hr b hb => ?_⟩
    obtain ⟨hnames, hb'⟩ := hr b hb
    exact ⟨_, hb', Batch.agrees_picked hnames hlast⟩

/-- A data file that is opened for some fields is opened for them again. -/
theorem Opens.exists_again (h : t.Opens schema once file indexes all fileSchema columns stream l)
    (hagain : Scan.Repetition schema once again) (hnames : fileSchema.fieldNames.Nodup)
    (hapart : t.TellsApart schema again file indexes) :
    ∃ hidden columns' stream' m,
      t.Opens schema again file indexes (again ++ hidden) fileSchema columns' stream' m ∧
        l.Repeats m once again hidden fileSchema.fields columns' ∧
        List.Forall₂ (fun r r' => ∀ b, r = .ok b → ∃ c, r' = .ok c ∧ b.Agrees columns' c)
          stream stream' := by
  obtain ⟨hidden, rfl, hresolved⟩ := Scan.readFields_again hagain.ids_iff h.resolved
  have hread := hagain.append h.resolved
  obtain ⟨columns', hcolumns', rfl, hfound⟩ :=
    Scan.columnsToRead_again hnames hread.ids hread.erased h.found
  have hopened : t.columnsOpened schema again file indexes = .ok columns' := by
    rw [columnsOpened, hresolved, ok_bind, h.known, ok_bind, hcolumns']
  obtain ⟨stream', hstream', hagrees⟩ := hapart.exists_stream hopened h.opened
  obtain ⟨check, hcheck, hfilter⟩ := h.filter
  obtain ⟨g, hg, hfollows⟩ := DeleteFilter.exists_create_follows hread.ids hread.sub hread.sup
    hfilter
  have hheader := Field.headers_pick h.header hread.sub
  refine ⟨hidden, columns', stream',
    ⟨g, file.path, Field.physicalNames fileSchema.fields (again ++ hidden), _, again.length,
      (again ++ hidden).length⟩,
    ⟨hresolved, ⟨check, hcheck, hg⟩, h.known, hcolumns', hstream', hheader, rfl, rfl, rfl, rfl⟩,
    ?_, hagrees⟩
  exact {
    sub := fun f hf => hagain.mem_iff.2 hf
    sup := fun f hf => hagain.mem_iff.1 hf
    ids := hread.ids
    distinct := hread.distinct
    named := hread.named
    addressable := hread.addressable
    asked := ⟨h.asked, rfl⟩
    total := ⟨h.total, rfl⟩
    names := ⟨h.names, rfl⟩
    header := ⟨h.header, hheader⟩
    filter := hfollows
    found := hfound }

/-- Read to the end, both readers give the same rows. -/
theorem exists_readerOver {reader : Reader} {ds : List Batch}
    (hagain : Scan.Repetition schema once again)
    (hnames : ∀ s, t.log.schemaById file.schemaId = .ok s → s.fieldNames.Nodup)
    (hapart : t.TellsApart schema again file indexes)
    (hreader : t.readerOver schema once file indexes = .ok reader)
    (hbatches : reader.batches = (ds, none)) :
    ∃ reader' es, t.readerOver schema again file indexes = .ok reader' ∧
      reader'.batches = (es, none) ∧
      es.flatMap (·.rows) = (ds.flatMap (·.rows)).map (Batch.pick (again.map once.idxOf)) := by
  obtain ⟨all, fileSchema, columns, stream, l, hopens, rfl⟩ := readerOver_eq_ok_iff.1 hreader
  obtain ⟨hidden, columns', stream', m, hopens', hrepeats, hagrees⟩ :=
    hopens.exists_again hagain (hnames fileSchema hopens.known) hapart
  rw [Reader.batches, Scan.Layers.remaining_reader, Scan.Layers.batchesWithin_reader_iff]
    at hbatches
  obtain ⟨es, hes, hrows⟩ := hrepeats.exists_reads hagrees hbatches
  refine ⟨m.reader 0 stream', es, readerOver_eq_ok_iff.2 ⟨_, _, _, _, _, hopens', rfl⟩, ?_, hrows⟩
  rwa [Reader.batches, Scan.Layers.remaining_reader, Scan.Layers.batchesWithin_reader_iff]

end Table

/-! ## Steps of a scan -/

namespace Scanning

variable {α β : Type} {kept last : KeptIndexes}

theorem run_bind_eq_ok_iff {x : Scanning α} {next : α → Scanning β} {b : β} :
    (x >>= next).run kept = (.ok b, last) ↔
      ∃ a mid, x.run kept = (.ok a, mid) ∧ (next a).run mid = (.ok b, last) := by
  cases hx : x.run kept with
  | mk r mid =>
      cases r with
      | ok a =>
          rw [run_bind_of_ok hx]
          constructor
          · exact fun h => ⟨a, mid, rfl, h⟩
          · rintro ⟨a', mid', h, hnext⟩
            cases h
            exact hnext
      | error e =>
          have hfail : (x >>= next).run kept = (.error e, mid) := by
            change StateT.run x.run kept = _ at hx
            change StateT.run (x >>= next).run kept = _
            rw [ExceptT.run_bind, StateT.run_bind, hx]
            rfl
          rw [hfail]
          constructor
          · exact fun h => by cases h
          · rintro ⟨a, mid', h, -⟩
            cases h

theorem run_result_eq_ok_iff {r : Except Error α} {a : α} :
    (ExceptT.mk (pure r) : Scanning α).run kept = (.ok a, last) ↔ r = .ok a ∧ last = kept := by
  change (r, kept) = (.ok a, last) ↔ _
  rw [Prod.mk.injEq, eq_comm (a := kept)]

/-- Steps that are taken one after the other, each with what comes of it. -/
inductive Runs (f : α → Scanning β) : KeptIndexes → List α → List β → KeptIndexes → Prop where
  | nil {kept : KeptIndexes} : Runs f kept [] [] kept
  | cons {kept mid last : KeptIndexes} {x : α} {y : β} {xs : List α} {ys : List β} :
      (f x).run kept = (.ok y, mid) → Runs f mid xs ys last →
        Runs f kept (x :: xs) (y :: ys) last

theorem run_mapM_eq_ok_iff {f : α → Scanning β} {xs : List α} {ys : List β} :
    (xs.mapM f).run kept = (.ok ys, last) ↔ Runs f kept xs ys last := by
  induction xs generalizing kept ys with
  | nil =>
      constructor
      · intro h
        cases h
        exact .nil
      · intro h
        cases h
        rfl
  | cons x xs ih =>
      rw [List.mapM_cons, run_bind_eq_ok_iff]
      constructor
      · rintro ⟨y, mid, hy, h⟩
        obtain ⟨rest, last', hrest, h⟩ := run_bind_eq_ok_iff.1 h
        cases h
        exact .cons hy (ih.1 hrest)
      · intro h
        cases h with
        | cons hy hrest => exact ⟨_, _, hy, run_bind_eq_ok_iff.2 ⟨_, _, ih.2 hrest, rfl⟩⟩

theorem exists_results_iff {f : α → Scanning β} {xs : List α} {ys : List β} :
    (∃ results, (xs.mapM fun x => (f x).run).run kept = (results, last) ∧
      results.mapM id = .ok ys) ↔ Runs f kept xs ys last := by
  induction xs generalizing kept ys with
  | nil =>
      constructor
      · rintro ⟨results, h, hys⟩
        cases h
        cases hys
        exact .nil
      · intro h
        cases h
        exact ⟨[], rfl, rfl⟩
  | cons x xs ih =>
      simp only [List.mapM_cons, StateT.run_bind, StateT.run_pure]
      constructor
      · rintro ⟨results, h, hys⟩
        cases h
        rw [List.mapM_cons] at hys
        obtain ⟨y, hy, hys⟩ := bind_eq_ok_iff.1 hys
        obtain ⟨rest, hrest, hys⟩ := bind_eq_ok_iff.1 hys
        cases hys
        exact .cons (Prod.ext hy rfl) (ih.1 ⟨_, rfl, hrest⟩)
      · intro h
        cases h with
        | @cons _ mid _ _ y _ ys hy hrest =>
            obtain ⟨results, hresults, hys⟩ := ih.2 hrest
            refine ⟨.ok y :: results, ?_, ?_⟩
            · change StateT.run (f x).run kept = (.ok y, mid) at hy
              rw [hy]
              change StateT.run ((.ok y :: ·) <$> xs.mapM fun x => (f x).run) mid = _
              rw [StateT.run_map]
              change (_ <$> (xs.mapM fun x => (f x).run).run mid : Id _) = _
              rw [hresults]
              rfl
            · rw [List.mapM_cons, id_eq, ok_bind, hys]
              rfl

theorem run_lift_eq_ok_iff {x : StateM KeptIndexes α} {a : α} :
    (ExceptT.lift x : Scanning α).run kept = (.ok a, last) ↔ x.run kept = (a, last) := by
  cases hx : x.run kept with
  | mk b mid =>
      have hlift : (ExceptT.lift x : Scanning α).run kept = (.ok b, mid) := by
        change StateT.run (ExceptT.lift x : Scanning α).run kept = _
        rw [ExceptT.run_lift, StateT.run_map, hx]
        rfl
      rw [hlift, Prod.mk.injEq, Prod.mk.injEq, Except.ok.injEq]

/-- Steps that are all taken before their results are looked at. -/
theorem run_results_eq_ok_iff {f : α → Scanning β} {xs : List α} {ys : List β} :
    (ExceptT.lift (xs.mapM fun x => (f x).run) >>= fun results =>
      (ExceptT.mk (pure (results.mapM id)) : Scanning (List β))).run kept = (.ok ys, last) ↔
        Runs f kept xs ys last := by
  rw [run_bind_eq_ok_iff, ← exists_results_iff]
  constructor
  · rintro ⟨results, mid, hresults, h⟩
    obtain ⟨hys, rfl⟩ := run_result_eq_ok_iff.1 h
    exact ⟨results, run_lift_eq_ok_iff.1 hresults, hys⟩
  · rintro ⟨results, hresults, hys⟩
    exact ⟨results, last, run_lift_eq_ok_iff.2 hresults, run_result_eq_ok_iff.2 ⟨hys, rfl⟩⟩

end Scanning

/-! ## Tables -/

namespace Table

variable {t : Table} {schema : TableSchema} {fields once again : List Field} {task : ScanTask}
  {tasks : List ScanTask} {kept last : KeptIndexes} {bs : List Batch} {read : List (List Batch)}

/-- The tasks with the indexes that are loaded for them, one task after the other. -/
def loaded (t : Table) (schema : TableSchema) :
    KeptIndexes → List ScanTask → List (ScanTask × List DeleteIndex)
  | _, [] => []
  | kept, task :: tasks =>
    match (t.loadIndexes schema task.deletes).run kept with
    | (.ok indexes, kept) => (task, indexes) :: t.loaded schema kept tasks
    | (.error _, kept) => t.loaded schema kept tasks

/-- A task is read when its indexes are loaded and its reader comes to the end. -/
theorem readTask_run_eq_ok_iff :
    (t.readTask schema fields task).run kept = (.ok bs, last) ↔
      ∃ indexes reader ds, (t.loadIndexes schema task.deletes).run kept = (.ok indexes, last) ∧
        t.readerOver schema fields task.file indexes = .ok reader ∧
          reader.batches = (ds, none) ∧ bs = ds.filter fun b => b.size != 0 := by
  rw [readTask, Scanning.run_bind_eq_ok_iff]
  constructor
  · rintro ⟨reader, mid, hreader, h⟩
    rw [taskReader, Scanning.run_bind_eq_ok_iff] at hreader
    obtain ⟨indexes, mid', hindexes, hreader⟩ := hreader
    obtain ⟨hover, rfl⟩ := Scanning.run_result_eq_ok_iff.1 hreader
    obtain ⟨hbatches, rfl⟩ := Scanning.run_result_eq_ok_iff.1 h
    cases hds : reader.batches with
    | mk ds failure =>
        simp only [liveBatches, hds] at hbatches
        cases failure with
        | some e => cases hbatches
        | none => exact ⟨indexes, reader, ds, hindexes, hover, hds, (Except.ok.inj hbatches).symm⟩
  · rintro ⟨indexes, reader, ds, hindexes, hreader, hds, rfl⟩
    refine ⟨reader, last, ?_, Scanning.run_result_eq_ok_iff.2 ⟨?_, rfl⟩⟩
    · rw [taskReader, Scanning.run_bind_eq_ok_iff]
      exact ⟨indexes, last, hindexes, Scanning.run_result_eq_ok_iff.2 ⟨hreader, rfl⟩⟩
    · simp only [liveBatches, hds]

/-- All tasks are read, whether one after the other or several at a time. -/
theorem readAll_run_eq_ok_iff :
    (t.readAll schema fields tasks).run kept = (.ok bs, last) ↔
      ∃ workers read, t.parallelism = .ok workers ∧
        Scanning.Runs (t.readTask schema fields) kept tasks read last ∧ bs = read.flatten := by
  have hflat : ∀ {x : Scanning (List (List Batch))},
      (x >>= fun read => pure read.flatten).run kept = (.ok bs, last) ↔
        ∃ read, x.run kept = (.ok read, last) ∧ bs = read.flatten := by
    intro x
    rw [Scanning.run_bind_eq_ok_iff]
    constructor
    · rintro ⟨read, mid, hread, h⟩
      cases h
      exact ⟨read, hread, rfl⟩
    · rintro ⟨read, hread, rfl⟩
      exact ⟨read, last, hread, rfl⟩
  rw [readAll, Scanning.run_bind_eq_ok_iff]
  constructor
  · rintro ⟨workers, mid, hworkers, h⟩
    obtain ⟨hparallel, rfl⟩ := Scanning.run_result_eq_ok_iff.1 hworkers
    split at h
    · obtain ⟨read, hread, rfl⟩ := hflat.1 h
      exact ⟨workers, read, hparallel, Scanning.run_mapM_eq_ok_iff.1 hread, rfl⟩
    · rw [← bind_assoc] at h
      obtain ⟨read, hread, rfl⟩ := hflat.1 h
      exact ⟨workers, read, hparallel, Scanning.run_results_eq_ok_iff.1 hread, rfl⟩
  · rintro ⟨workers, read, hparallel, hread, rfl⟩
    refine ⟨workers, kept, Scanning.run_result_eq_ok_iff.2 ⟨hparallel, rfl⟩, ?_⟩
    split
    · exact hflat.2 ⟨read, Scanning.run_mapM_eq_ok_iff.2 hread, rfl⟩
    · rw [← bind_assoc]
      exact hflat.2 ⟨read, Scanning.run_results_eq_ok_iff.2 hread, rfl⟩

/-- Batches without rows have no rows. -/
theorem flatMap_rows_filter (ds : List Batch) :
    (ds.filter fun b => b.size != 0).flatMap (·.rows) = ds.flatMap (·.rows) := by
  induction ds with
  | nil => rfl
  | cons d ds ih =>
      rw [List.filter_cons]
      split
      · rw [List.flatMap_cons, List.flatMap_cons, ih]
      · rename_i hempty
        have hrows : d.rows = [] := by simpa [Batch.size] using hempty
        rw [List.flatMap_cons, ih, hrows, List.nil_append]

/-- Reading tasks again gives the same rows, with the same values for every field. -/
theorem exists_runs (hagain : Scan.Repetition schema once again)
    (hnames : ∀ task ∈ tasks, ∀ s, t.log.schemaById task.file.schemaId = .ok s →
      s.fieldNames.Nodup)
    (hapart : ∀ p ∈ t.loaded schema kept tasks, t.TellsApart schema again p.1.file p.2)
    (h : Scanning.Runs (t.readTask schema once) kept tasks read last) :
    ∃ read', Scanning.Runs (t.readTask schema again) kept tasks read' last ∧
      read'.flatten.flatMap (·.rows) =
        (read.flatten.flatMap (·.rows)).map (Batch.pick (again.map once.idxOf)) := by
  induction h with
  | nil => exact ⟨[], .nil, rfl⟩
  | @cons kept mid last task bs tasks read hfirst hrest ih =>
      obtain ⟨indexes, reader, ds, hindexes, hreader, hds, rfl⟩ := readTask_run_eq_ok_iff.1 hfirst
      rw [loaded, hindexes] at hapart
      obtain ⟨reader', es, hreader', hes, hrows⟩ := exists_readerOver hagain
        (hnames task (List.mem_cons_self ..)) (hapart _ (List.mem_cons_self ..)) hreader hds
      obtain ⟨read', hread', hmore⟩ := ih
        (fun task htask => hnames task (List.mem_cons_of_mem _ htask))
        fun p hp => hapart p (List.mem_cons_of_mem _ hp)
      refine ⟨_ :: read', .cons (readTask_run_eq_ok_iff.2
        ⟨indexes, reader', es, hindexes, hreader', hes, rfl⟩) hread', ?_⟩
      simp only [List.flatten_cons, List.flatMap_append, List.map_append, flatMap_rows_filter,
        hrows, hmore]

theorem readTable_run_eq_ok_iff {columns : List ColumnField} {rows : List (List Value)} :
    (t.readTable schema fields tasks).run kept = (.ok (columns, rows), last) ↔
      columnsOf fields = .ok columns ∧
        ∃ bs, (t.readAll schema fields tasks).run kept = (.ok bs, last) ∧
          rows = bs.flatMap (·.rows) := by
  rw [readTable, Scanning.run_bind_eq_ok_iff]
  constructor
  · rintro ⟨bs, mid, hbs, h⟩
    obtain ⟨columns', mid', hmade, hrows⟩ := Scanning.run_bind_eq_ok_iff.1 h
    obtain ⟨hcolumns, rfl⟩ := Scanning.run_result_eq_ok_iff.1 hmade
    cases hrows
    exact ⟨hcolumns, bs, hbs, rfl⟩
  · rintro ⟨hcolumns, bs, hbs, rfl⟩
    refine ⟨bs, last, hbs, Scanning.run_bind_eq_ok_iff.2 ⟨columns, last, ?_, rfl⟩⟩
    exact Scanning.run_result_eq_ok_iff.2 ⟨hcolumns, rfl⟩

theorem exists_columnsOf {columns : List ColumnField} (hsub : ∀ f ∈ fields, f ∈ once)
    (h : columnsOf once = .ok columns) : ∃ columns', columnsOf fields = .ok columns' := by
  obtain ⟨found, hfound, -⟩ := bind_eq_ok_iff.1 h
  rw [liftError_eq_ok_iff, Field.columns] at hfound
  obtain ⟨found', hfound'⟩ : ∃ found', fields.mapM Field.column = .ok found' := by
    refine exists_mapM_eq_ok fun f hf => ?_
    obtain ⟨c, -, hc⟩ := exists_mem_of_forall₂ (mapM_eq_ok_iff.1 hfound).flip (hsub f hf)
    exact ⟨c, hc⟩
  rw [columnsOf, Field.columns, liftError_eq_ok_iff.2 hfound', ok_bind]
  exact ⟨_, rfl⟩

/-- **Repeated columns are harmless where they are opened last.**  When a projection names columns
more than once, and no more than the last column that is opened of each data file is opened more
than once, by a source that hands it out as often, then the rows are those of the projection without
repetitions, each with its values for the fields that are asked for. -/
theorem readTable_of_lastRepeated {names : List String} {columns : List ColumnField}
    {rows : List (List Value)} (hids : schema.fieldIds.Nodup) (hnames : schema.fieldNames.Nodup)
    (hnamed : ∀ f ∈ schema.fields, f.name ≠ "")
    (hagain : schema.project (some names) = .ok again)
    (honce : schema.project (some names.eraseDups) = .ok once)
    (hmax : again.length + schema.fields.length ≤ maxIndex)
    (hfiles : ∀ task ∈ tasks, ∀ s, t.log.schemaById task.file.schemaId = .ok s →
      s.fieldNames.Nodup)
    (hapart : ∀ p ∈ t.loaded schema kept tasks, t.TellsApart schema again p.1.file p.2)
    (h : (t.readTable schema once tasks).run kept = (.ok (columns, rows), last)) :
    ∃ columns', columnsOf again = .ok columns' ∧
      (t.readTable schema again tasks).run kept =
        (.ok (columns', rows.map (Batch.pick (again.map once.idxOf))), last) := by
  have hrepetition : Scan.Repetition schema once again :=
    ⟨TableSchema.eraseDups_of_project (.of_map _ hids) hagain honce,
      fun f hf => TableSchema.mem_of_project hagain hf, hids, hnames, hnamed, hmax⟩
  obtain ⟨hcolumns, bs, hbs, rfl⟩ := readTable_run_eq_ok_iff.1 h
  obtain ⟨workers, read, hworkers, hread, rfl⟩ := readAll_run_eq_ok_iff.1 hbs
  obtain ⟨read', hread', hrows⟩ := exists_runs hrepetition hfiles hapart hread
  obtain ⟨columns', hcolumns'⟩ := exists_columnsOf
    (fun f hf => hrepetition.mem_iff.2 hf) hcolumns
  refine ⟨columns', hcolumns', readTable_run_eq_ok_iff.2 ⟨hcolumns', read'.flatten, ?_, hrows.symm⟩⟩
  exact readAll_run_eq_ok_iff.2 ⟨workers, read', hworkers, hread', rfl⟩

/-! ## A table of one row -/

def columnA : Field := ⟨1, "a", .atomic "INT" true, none⟩

def columnB : Field := ⟨2, "b", .atomic "INT" true, none⟩

/-- A table whose files hold a row with 1 in column `a` and 2 in column `b`. -/
def pairTable : Table where
  log := .start ⟨0, [columnA, columnB], [], 2, []⟩
  options := .ofList []
  source _ _ names := .ok [.ok
    { header := names.map fun name => ⟨name, .flat (.int .w32)⟩
      rows := [names.map fun name => if name = "a" then .int 1 else .int 2] }]

def pairTask : ScanTask := ⟨⟨"d.parquet", "parquet", [], 1, 0, 0, none, none⟩, []⟩

/-- The column that is opened last may be asked for twice. -/
theorem readTable_pair_repeated :
    ∃ columns, columnsOf [columnB, columnA, columnA] = .ok columns ∧
      (pairTable.readTable pairTable.log.schema [columnB, columnA, columnA] [pairTask]).run none =
        (.ok (columns, [[.int 2, .int 1, .int 1]]), none) := by
  have hagain : pairTable.log.schema.project (some ["b", "a", "a"]) =
      .ok [columnB, columnA, columnA] := rfl
  have hread : (pairTable.readTable pairTable.log.schema [columnB, columnA] [pairTask]).run none =
      (.ok (_, [[.int 2, .int 1]]), none) := rfl
  refine readTable_of_lastRepeated (by decide) (by decide) (by decide) hagain rfl (by decide) ?_ ?_
    hread
  · intro task htask s hs
    obtain rfl := List.mem_singleton.1 htask
    cases hs
    decide
  · intro p hp columns hcolumns
    obtain rfl : p = (pairTask, []) := List.mem_singleton.1 hp
    cases hcolumns
    refine .inr ⟨?_, ?_⟩
    · intro name hname
      have hmem : name ∈ ["b", "a", "a"] := List.count_pos_iff.1 (Nat.zero_lt_of_lt hname)
      simp only [List.mem_cons, List.not_mem_nil, or_false, or_self] at hmem
      rcases hmem with rfl | rfl
      · exact absurd hname (by decide)
      · rfl
    · intro stream hstream
      cases hstream
      refine ⟨_, rfl, .cons (fun b hb => ?_) .nil⟩
      cases hb
      exact ⟨rfl, rfl⟩

/-- Another column is not found when it is asked for twice: the last one is read in its place. -/
example :
    ((pairTable.readTable pairTable.log.schema [columnA, columnA, columnB] [pairTask]).run
      none).1.map (·.2) = .ok [[.int 2, .int 2, .int 2]] := rfl

end Table

end MergeOnRead
