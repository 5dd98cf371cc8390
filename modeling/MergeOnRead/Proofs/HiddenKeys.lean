import MergeOnRead.Proofs.MissingFields
import MergeOnRead.Proofs.RepeatedProjections
import MergeOnRead.Proofs.TaskPaths

/-!
# Key fields that are not asked for

The keys of deletes are made of fields that a scan may not ask for.  The reader of a task reads such
fields behind the others, finds the keys by the places of their fields, and in the end keeps as many
leading columns as there are fields that are asked for.  Two lengths are all that it compares then.
This is sound whatever was asked for and whatever is deleted (`Table.hidesKeys`).

Strategy:

* the loop that collects the fields keeps two collections, the fields and the ids that it has seen
  (`ReadList`).  `visit_eq_ok_iff` and `visit_eq_error_iff` say what one step does;
* `ReadList.Follows` is the invariant: the fields that are asked for stand in front, the key fields
  that are missing among them follow in the order in which they occur first, and what was seen are
  the ids of both.  `Follows.visit` is the step and `Follows.run` the run, while
  `foldlM_visit_eq_error_iff` says with which id the loop fails;
* every key field has a place then (`Field.exists_arePlaces`), and so there is only one error that a
  filter can fail with (`create_eq_error`);
* what is kept of a row, of a batch and of everything that a reader hands out has the fields that
  are asked for (`isLaidOut_leading`, `readBatch_keepLeading`, `header_of_batches`).
-/

namespace MergeOnRead

namespace Scan

/-- The key fields that are not among some fields, in the order in which they occur first. -/
def hiddenIds (fields : List Field) (ids : List Int) : List Int :=
  (ids.filter fun id => id ∉ fields.map (·.id)).eraseDups

/-- The first key field, in the order of the indexes, that is neither asked for nor known. -/
def firstUnknown? (schema : TableSchema) (fields : List Field) (indexes : List DeleteIndex) :
    Option Int :=
  (indexes.flatMap (·.fieldIds)).find? fun id => id ∉ fields.map (·.id) ∧ id ∉ schema.fieldIds

section HiddenIds

variable {fields : List Field} {ids : List Int} {id : Int}

theorem mem_hiddenIds : id ∈ hiddenIds fields ids ↔ id ∈ ids ∧ id ∉ fields.map (·.id) := by
  unfold hiddenIds
  rw [List.mem_eraseDups, List.mem_filter, decide_eq_true_eq]

/-- One more key field is hidden unless it is asked for or hidden already. -/
theorem hiddenIds_concat : hiddenIds fields (ids ++ [id]) =
    if id ∈ fields.map (·.id) ∨ id ∈ ids then hiddenIds fields ids
    else hiddenIds fields ids ++ [id] := by
  unfold hiddenIds
  rw [List.filter_append]
  by_cases hasked : id ∈ fields.map (·.id)
  · rw [if_pos (.inl hasked), List.filter_cons_of_neg (by simpa using hasked), List.filter_nil,
      List.append_nil]
  · have hmem : id ∈ ids.filter (fun id => id ∉ fields.map (·.id)) ↔
        id ∈ fields.map (·.id) ∨ id ∈ ids := by
      rw [List.mem_filter, or_iff_right hasked]
      exact and_iff_left (by simpa using hasked)
    rw [List.filter_cons_of_pos (by simpa using hasked), List.filter_nil, eraseDups_concat]
    exact if_congr hmem rfl rfl

end HiddenIds

/-! ## Collecting the fields -/

/-- What a loop over key fields has collected. -/
structure ReadList where
  /-- The fields to be read. -/
  fields : List Field
  /-- The ids that need not be looked up again. -/
  seen : List Int

namespace ReadList

/-- The fields that are asked for. -/
def start (fields : List Field) : ReadList := ⟨fields, fields.map (·.id)⟩

/-- One key field.  Unless it was seen, it is looked up and put behind the other fields. -/
def visit (schema : TableSchema) (dataPath : String) (s : ReadList) (id : Int) :
    Except Error ReadList :=
  if id ∈ s.seen then .ok s
  else match schema.findField? id with
    | some f => .ok ⟨s.fields ++ [f], s.seen ++ [id]⟩
    | none => .error (.scan (.unresolved id) (some dataPath))

/-- The key fields of one index after the other. -/
def visitAll (schema : TableSchema) (dataPath : String) (s : ReadList)
    (indexes : List DeleteIndex) : Except Error ReadList :=
  indexes.foldlM (fun s index => index.fieldIds.foldlM (visit schema dataPath) s) s

variable {schema : TableSchema} {dataPath : String} {fields : List Field} {s t : ReadList}
  {id : Int} {ids visited : List Int} {e : Error}

theorem visitAll_eq (indexes : List DeleteIndex) :
    visitAll schema dataPath s indexes =
      (indexes.flatMap (·.fieldIds)).foldlM (visit schema dataPath) s := by
  unfold visitAll
  induction indexes generalizing s with
  | nil => rfl
  | cons index indexes ih =>
      rw [List.foldlM_cons, List.flatMap_cons, List.foldlM_append]
      exact bind_congr fun t => ih

/-! ### One step -/

theorem visit_eq_ok_iff : visit schema dataPath s id = .ok t ↔
    id ∈ s.seen ∧ t = s ∨
      id ∉ s.seen ∧ ∃ f, schema.findField? id = some f ∧ t = ⟨s.fields ++ [f], s.seen ++ [id]⟩ := by
  unfold visit
  by_cases hseen : id ∈ s.seen
  · simp [hseen, eq_comm]
  · cases hfield : schema.findField? id with
    | none => simp [hseen]
    | some f => simp [hseen, eq_comm]

theorem visit_eq_error_iff : visit schema dataPath s id = .error e ↔
    id ∉ s.seen ∧ id ∉ schema.fieldIds ∧ e = .scan (.unresolved id) (some dataPath) := by
  rw [← TableSchema.findField?_eq_none_iff]
  unfold visit
  by_cases hseen : id ∈ s.seen
  · simp [hseen]
  · cases hfield : schema.findField? id with
    | none => simp [hseen, eq_comm]
    | some f => simp [hseen]

/-- What neither was seen nor is in the schema is the same after a step. -/
theorem unknown_iff (h : visit schema dataPath s id = .ok t) (i : Int) :
    i ∉ t.seen ∧ i ∉ schema.fieldIds ↔ i ∉ s.seen ∧ i ∉ schema.fieldIds := by
  rcases visit_eq_ok_iff.1 h with ⟨-, rfl⟩ | ⟨-, f, hf, rfl⟩
  · rfl
  · have hid : id ∈ schema.fieldIds := by
      by_contra hnot
      rw [TableSchema.findField?_eq_none_iff.2 hnot] at hf
      cases hf
    rw [List.mem_append, List.mem_singleton, not_or, and_assoc]
    refine and_congr_right fun _ => and_iff_right_of_imp fun hknown => ?_
    rintro rfl
    exact hknown hid

/-! ### The whole loop -/

/-- The loop fails with the first id that was not seen and is not in the schema. -/
theorem foldlM_visit_eq_error_iff : ids.foldlM (visit schema dataPath) s = .error e ↔
    ∃ id, ids.find? (fun id => id ∉ s.seen ∧ id ∉ schema.fieldIds) = some id ∧
      e = .scan (.unresolved id) (some dataPath) := by
  induction ids generalizing s with
  | nil => simp [pure, Except.pure]
  | cons first ids ih =>
      rw [List.foldlM_cons, bind_eq_error_iff]
      cases hvisit : visit schema dataPath s first with
      | error e' =>
          obtain ⟨hseen, hknown, rfl⟩ := visit_eq_error_iff.1 hvisit
          rw [List.find?_cons_of_pos (by simpa using ⟨hseen, hknown⟩)]
          simp [eq_comm]
      | ok t =>
          have hfound : ¬(first ∉ s.seen ∧ first ∉ schema.fieldIds) := by
            rintro ⟨hseen, hknown⟩
            have herror : visit schema dataPath s first =
                .error (.scan (.unresolved first) (some dataPath)) :=
              visit_eq_error_iff.2 ⟨hseen, hknown, rfl⟩
            rw [hvisit] at herror
            cases herror
          rw [List.find?_cons_of_neg (by simpa using hfound)]
          simp only [reduceCtorEq, false_or, Except.ok.injEq, exists_eq_left', ih,
            unknown_iff hvisit]

/-- What was collected after some key fields. -/
structure Follows (schema : TableSchema) (fields : List Field) (visited : List Int)
    (s : ReadList) : Prop where
  exists_hidden : ∃ hidden, s.fields = fields ++ hidden ∧
    hidden.map (·.id) = hiddenIds fields visited ∧ ∀ f ∈ hidden, schema.findField? f.id = some f
  /-- Both collections have the same ids. -/
  seen_iff : ∀ id, id ∈ s.seen ↔ id ∈ s.fields.map (·.id)

namespace Follows

theorem start (schema : TableSchema) (fields : List Field) :
    Follows schema fields [] (start fields) where
  exists_hidden := ⟨[], by simp [ReadList.start], rfl, by simp⟩
  seen_iff _ := Iff.rfl

/-- What was seen was asked for or visited. -/
theorem mem_seen_iff (h : Follows schema fields visited s) :
    id ∈ s.seen ↔ id ∈ fields.map (·.id) ∨ id ∈ visited := by
  obtain ⟨hidden, hfields, hids, -⟩ := h.exists_hidden
  rw [h.seen_iff, hfields, List.map_append, List.mem_append, hids, mem_hiddenIds]
  tauto

theorem visit (h : Follows schema fields visited s) (hvisit : visit schema dataPath s id = .ok t) :
    Follows schema fields (visited ++ [id]) t := by
  obtain ⟨hidden, hfields, hids, hfound⟩ := h.exists_hidden
  rcases visit_eq_ok_iff.1 hvisit with ⟨hseen, rfl⟩ | ⟨hseen, f, hf, rfl⟩
  · refine ⟨⟨hidden, hfields, ?_, hfound⟩, h.seen_iff⟩
    rw [hids, hiddenIds_concat, if_pos (h.mem_seen_iff.1 hseen)]
  · -- The field that is found has the id that was looked up.
    have hid : f.id = id := by simpa using (TableSchema.of_findLast?_eq_some hf).2
    refine ⟨⟨hidden ++ [f], ?_, ?_, ?_⟩, fun i => ?_⟩
    · rw [hfields, List.append_assoc]
    · rw [hiddenIds_concat, if_neg fun hin => hseen (h.mem_seen_iff.2 hin), List.map_append, hids,
        List.map_singleton, hid]
    · intro g hg
      rcases List.mem_append.1 hg with hg | hg
      · exact hfound g hg
      · rw [List.mem_singleton.1 hg, hid]
        exact hf
    · rw [List.mem_append, h.seen_iff, List.map_append, List.mem_append, List.map_singleton, hid]

theorem run (h : Follows schema fields visited s)
    (hrun : ids.foldlM (ReadList.visit schema dataPath) s = .ok t) :
    Follows schema fields (visited ++ ids) t := by
  induction ids generalizing s visited with
  | nil =>
      cases hrun
      rwa [List.append_nil]
  | cons id ids ih =>
      rw [List.foldlM_cons] at hrun
      obtain ⟨s', hvisit, hrun⟩ := bind_eq_ok_iff.1 hrun
      have hrest := ih (h.visit hvisit) hrun
      rwa [List.append_assoc, List.singleton_append] at hrest

/-- The fields alone tell which ids were seen. -/
theorem readFields_eq (h : Follows schema fields visited s) :
    readFields schema dataPath s.fields ids =
      (ids.foldlM (ReadList.visit schema dataPath) s).map (·.fields) := by
  induction ids generalizing s visited with
  | nil => rfl
  | cons id ids ih =>
      have hany : (s.fields.any fun f => f.id == id) = true ↔ id ∈ s.seen := by
        rw [h.seen_iff, List.any_eq_true, List.mem_map]
        simp
      rw [readFields, List.foldlM_cons]
      cases hvisit : ReadList.visit schema dataPath s id with
      | error e =>
          obtain ⟨hseen, hknown, rfl⟩ := visit_eq_error_iff.1 hvisit
          rw [if_neg fun hin => hseen (hany.1 hin), TableSchema.findField?_eq_none_iff.2 hknown]
          rfl
      | ok t =>
          have hnext := ih (h.visit hvisit)
          rw [ok_bind, ← hnext]
          rcases visit_eq_ok_iff.1 hvisit with ⟨hseen, rfl⟩ | ⟨hseen, f, hf, rfl⟩
          · rw [if_pos (hany.2 hseen)]
          · rw [if_neg fun hin => hseen (hany.1 hin), hf]

end Follows

/-- The fields of a task are what the loop over its indexes collects. -/
theorem readFields_eq_visitAll (schema : TableSchema) (dataPath : String) (fields : List Field)
    (indexes : List DeleteIndex) :
    readFields schema dataPath fields (indexes.flatMap (·.fieldIds)) =
      (visitAll schema dataPath (start fields) indexes).map (·.fields) := by
  rw [visitAll_eq]
  exact (Follows.start schema fields).readFields_eq

end ReadList

/-- The loop fails with the first key field that is unknown. -/
theorem readFields_eq_error_iff {schema : TableSchema} {dataPath : String} {fields : List Field}
    {indexes : List DeleteIndex} {e : Error} :
    readFields schema dataPath fields (indexes.flatMap (·.fieldIds)) = .error e ↔
      ∃ id, firstUnknown? schema fields indexes = some id ∧
        e = .scan (.unresolved id) (some dataPath) := by
  rw [ReadList.readFields_eq_visitAll, map_eq_error_iff, ReadList.visitAll_eq,
    ReadList.foldlM_visit_eq_error_iff]
  rfl

/-- The fields that are asked for, and behind them the key fields that are hidden. -/
theorem exists_hidden_of_readFields {schema : TableSchema} {dataPath : String}
    {fields all : List Field} {indexes : List DeleteIndex}
    (h : readFields schema dataPath fields (indexes.flatMap (·.fieldIds)) = .ok all) :
    ∃ hidden, all = fields ++ hidden ∧
      hidden.map (·.id) = hiddenIds fields (indexes.flatMap (·.fieldIds)) ∧
        ∀ f ∈ hidden, schema.findField? f.id = some f := by
  rw [ReadList.readFields_eq_visitAll, map_eq_ok_iff] at h
  obtain ⟨t, hrun, rfl⟩ := h
  rw [ReadList.visitAll_eq] at hrun
  exact ((ReadList.Follows.start schema fields).run hrun).exists_hidden

end Scan

/-! ## The places of the key fields -/

namespace Field

/-- The places of ids among fields. -/
def ArePlaces (all : List Field) (ids : List Int) (places : List Nat) : Prop :=
  List.Forall₂ (fun id place => ∃ f, all[place]? = some f ∧ f.id = id) ids places

variable {all : List Field} {ids : List Int}

theorem arePlaces_of_positionsOf {places : List Nat} (h : positionsOf ids all = .ok places) :
    ArePlaces all ids places := by
  refine (positionsOf_eq_ok_iff.1 h).imp fun id place hplace => ?_
  obtain ⟨hlt, hid⟩ := of_positionOf?_eq_some hplace
  exact ⟨all[place], List.getElem?_eq_getElem hlt, hid⟩

theorem exists_arePlaces (h : ∀ id ∈ ids, id ∈ all.map (·.id)) :
    ∃ places, positionsOf ids all = .ok places ∧ ArePlaces all ids places := by
  have hnone : ids.find? (· ∉ all.map (·.id)) = none := by
    rw [List.find?_eq_none]
    intro id hid
    simpa using h id hid
  cases hplaces : positionsOf ids all with
  | error id =>
      rw [positionsOf_eq_error_iff, hnone] at hplaces
      cases hplaces
  | ok places => exact ⟨places, rfl, arePlaces_of_positionsOf hplaces⟩

end Field

namespace DeleteFilter

variable {file : DataFile} {indexes : List DeleteIndex} {all : List Field} {check : Bool}
  {f : DeleteFilter} {e : Error}

/-- Where every key field is read, only a position past the end of the file keeps a filter from
being made. -/
theorem create_eq_error (hread : ∀ index ∈ indexes, ∀ id ∈ index.fieldIds, id ∈ all.map (·.id))
    (h : create file indexes all check = .error e) :
    check = true ∧ ∃ last : Nat,
      e = .scan (.deleteOutOfRange (some last) file.rowCount) (some file.path) := by
  rcases create_cases file indexes all check with
    ⟨last, hcheck, -, herror⟩ | ⟨-, ⟨id, hid, -⟩ | ⟨-, f, hok⟩⟩
  · rw [h] at herror
    exact ⟨hcheck, last, Except.error.inj herror⟩
  · rw [DeleteIndex.firstUnread?_eq_none_iff.2 hread] at hid
    cases hid
  · rw [h] at hok
    cases hok

/-- The places of a filter are those of its key fields among some fields. -/
structure LiesWithin (f : DeleteFilter) (all : List Field) : Prop where
  places : ∀ g ∈ f.groups, Field.ArePlaces all g.fieldIds g.places
  columns : ∀ column ∈ f.keyColumns, column < all.length
  /-- Among the key columns, too, every key field has a place. -/
  offsets : ∀ g ∈ f.groups, ∀ place ∈ g.places,
    f.keyColumns[f.keyColumns.idxOf place]? = some place
  /-- A row of these fields has the values of all keys. -/
  values : ∀ (values : List Value) (r : Row), IsLaidOut all values r → ∀ g ∈ f.groups,
    g.places.mapM (fun (i : Nat) => r.get i) = .ok (g.fieldIds.map (valueOf all values))

theorem liesWithin (hids : (all.map (·.id)).Nodup) (h : create file indexes all check = .ok f) :
    f.LiesWithin all where
  places g hg := Field.arePlaces_of_positionsOf ((mem_groups_iff h).1 hg).2
  columns column hcolumn := lt_of_mem_keyColumns h hcolumn
  offsets g hg place hplace := by
    have hmem : place ∈ f.keyColumns := mem_keyColumns.2 ⟨g, hg, hplace⟩
    have hlt := List.idxOf_lt_length_of_mem hmem
    rw [List.getElem?_eq_getElem hlt, List.getElem_idxOf hlt]
  values values r hrow g hg := mapM_places_eq h (hrow.hasFields hids) hg

theorem header_of_apply {b c : Batch} {start : Int} (h : f.apply b start = .ok c) :
    c.header = b.header := by
  unfold DeleteFilter.apply at h
  split at h
  · cases h
    rfl
  · obtain ⟨live, -, h⟩ := bind_eq_ok_iff.1 h
    split at h
    · cases h
      rfl
    · cases h
      rfl

end DeleteFilter

/-! ## What is kept in the end -/

/-- The leading columns are found wherever they can be selected. -/
theorem Batch.header_of_select {b c : Batch} {count : Nat}
    (h : b.select ((List.range count).map fun (i : Nat) => (i : Int)) = .ok c) :
    c.header = b.header.take count := by
  obtain ⟨places, hplaces, h⟩ := bind_eq_ok_iff.1 h
  have hplace : ∀ i place : Nat, b.resolveIndex (i : Int) = .ok place →
      i < b.header.length ∧ place = i := by
    intro i place hresolved
    unfold resolveIndex at hresolved
    split at hresolved
    · unfold resolveIndex? at hresolved
      by_cases hlt : i < b.header.length
      · simp only [Int.natCast_nonneg, if_true, Int.ofNat_lt, hlt, Int.toNat_natCast,
          Except.ok.injEq] at hresolved
        exact ⟨hlt, hresolved.symm⟩
      · simp only [Int.natCast_nonneg, if_true, Int.ofNat_lt, hlt, if_false,
          reduceCtorEq] at hresolved
    · cases hresolved
  rw [List.mapM_map, mapM_eq_ok_iff] at hplaces
  have hsame : places = List.range count := by
    refine (List.forall₂_eq_eq_eq ▸ hplaces.imp fun i place hi => ?_ :
      List.range count = places).symm
    exact (hplace i place hi).2.symm
  have hle : count ≤ b.header.length := by
    by_contra hgt
    have hmem : b.header.length ∈ List.range count := List.mem_range.2 (by omega)
    obtain ⟨place, -, hresolved⟩ := exists_mem_of_forall₂ hplaces.flip hmem
    exact Nat.lt_irrefl _ (hplace _ place hresolved).1
  cases h
  rw [hsame]
  exact pick_range hle

namespace Scan

variable {fields hidden : List Field}

theorem hidden_eq_nil (h : (fields ++ hidden).length = fields.length) : hidden = [] := by
  rw [List.length_append] at h
  exact List.length_eq_zero_iff.1 (by omega)

/-- A row as it is seen through its leading fields. -/
def leading (count : Nat) (r : Row) : Row :=
  .view ((List.range count).map fun (i : Nat) => (i : Int)) (some r)

theorem isLaidOut_leading {values : List Value} {r : Row} (hmax : fields.length ≤ maxIndex)
    (hrow : DeleteFilter.IsLaidOut (fields ++ hidden) values r) :
    DeleteFilter.IsLaidOut fields (values.take fields.length) (leading fields.length r) := by
  obtain ⟨hlength, hget⟩ := hrow
  rw [List.length_append] at hlength
  refine ⟨by rw [List.length_take]; omega, fun i v hv => ?_⟩
  rw [List.getElem?_take] at hv
  split at hv
  · rename_i hi
    unfold leading
    rw [Row.view_range_get hi hmax]
    exact hget i v hv
  · cases hv

/-- The fields that are asked for come out of a batch of all fields, with their values. -/
theorem readBatch_keepLeading {reader rest : Reader} {b : Batch}
    (hread : reader.readBatch = (.ok (some b), rest)) (hb : b.LaidOut (fields ++ hidden)) :
    ∃ c, (keepLeading fields.length (fields ++ hidden).length reader).readBatch =
        (.ok (some c), keepLeading fields.length (fields ++ hidden).length rest) ∧
      c.LaidOut fields ∧ c.rows = b.rows.map (List.take fields.length) := by
  have hlength := hb.length_header
  have hheader := Field.headers_append hb.header
  unfold keepLeading
  by_cases hall : (fields ++ hidden).length = fields.length
  · -- Nothing is hidden.
    obtain rfl := hidden_eq_nil hall
    rw [List.append_nil] at hb hlength
    simp only [if_pos hall, hread]
    refine ⟨b, rfl, hb, ?_⟩
    refine ((List.map_congr_left fun row hrow => ?_).trans (List.map_id _)).symm
    exact List.take_of_length_le (by rw [hb.width row hrow, hlength])
  · have hle : fields.length ≤ b.header.length := by
      rw [hlength, List.length_append]
      omega
    have hlt : ∀ place ∈ List.range fields.length, place < b.header.length :=
      fun place hplace => (List.mem_range.1 hplace).trans_le hle
    simp only [if_neg hall, Reader.readBatch, hread, Batch.select_eq_ok hlt hb.addressable]
    have hrows : b.rows.map (Batch.pick (List.range fields.length)) =
        b.rows.map (List.take fields.length) :=
      List.map_congr_left fun row hrow => Batch.pick_range (hb.width row hrow ▸ hle)
    refine ⟨_, rfl, ⟨?_, fun row hrow => ?_, ?_⟩, hrows⟩
    · rw [hheader, Batch.pick_range hle]
    · obtain ⟨full, hfull, rfl⟩ := List.mem_map.1 hrow
      rw [Batch.pick, Batch.pick, List.length_map, List.length_map]
    · rw [Batch.pick_range hle, List.length_take]
      have := hb.addressable
      omega

namespace Layers

variable {l : Layers}

theorem header_of_finish {c d : Batch} {position : Int} (hasked : l.asked = fields.length)
    (htotal : l.total = (fields ++ hidden).length)
    (hheader : Field.headers (fields ++ hidden) = .ok c.header)
    (h : l.finish c position = .ok d) : Field.headers fields = .ok d.header := by
  obtain ⟨kept, hkept, h⟩ := bind_eq_ok_iff.1 h
  rw [hasked, htotal] at h
  rw [← DeleteFilter.header_of_apply hkept] at hheader
  split at h
  · rename_i hall
    obtain rfl := hidden_eq_nil hall
    cases h
    rwa [List.append_nil] at hheader
  · rw [Batch.header_of_select h]
    exact Field.headers_append hheader

/-- Every batch that is read has the columns that are asked for, whatever comes after it. -/
theorem header_of_batches {position : Nat} {stream : BatchStream} {d : Batch}
    (hasked : l.asked = fields.length) (htotal : l.total = (fields ++ hidden).length)
    (hheader : Field.headers (fields ++ hidden) = .ok l.header)
    (hd : d ∈ (l.reader position stream).batches.1) : Field.headers fields = .ok d.header := by
  rw [Reader.batches, remaining_reader] at hd
  induction stream generalizing position with
  | nil => cases hd
  | cons r rest ih =>
      rw [List.length_cons, Reader.batchesWithin, readBatch_reader] at hd
      cases hc : l.conformed r with
      | error e =>
          rw [hc] at hd
          cases hd
      | ok c =>
          obtain ⟨b, rfl, hconform⟩ := (conformed_eq_ok_iff _).1 hc
          simp only [hc] at hd
          cases hfinish : l.finish c position with
          | error e =>
              rw [hfinish] at hd
              cases hd
          | ok first =>
              rw [hfinish] at hd
              rcases List.mem_cons.1 hd with rfl | hd
              · rw [← Batch.header_of_conform hconform] at hheader
                exact header_of_finish hasked htotal hheader hfinish
              · exact ih hd

end Layers

end Scan

/-! ## Reading with hidden fields -/

namespace Scan

variable {schema : TableSchema} {fields all : List Field} {file : DataFile}
  {indexes : List DeleteIndex}

/-- Opening a data file says that a field is missing only where the source of its batches does. -/
theorem source_eq_error_of_dataReader {source : RowSource} {fileSchema : TableSchema} {e : Error}
    (h : dataReader source file fileSchema all = .error e) (hkind : e.kind = .schemaMismatch) :
    ∃ columns, source file.path file.format columns = .error e := by
  unfold dataReader at h
  rcases bind_eq_error_iff.1 h with hcolumns | ⟨columns, -, h⟩
  · unfold columnsToRead at hcolumns
    split at hcolumns
    · split at hcolumns
      · cases hcolumns
      · cases hcolumns
        cases hkind
    · cases hcolumns
  · rcases bind_eq_error_iff.1 h with hsource | ⟨stream, -, h⟩
    · exact ⟨columns, hsource⟩
    · rcases bind_eq_error_iff.1 h with hheader | ⟨header, -, h⟩
      · cases htype : Field.headers all with
        | ok header =>
            rw [htype] at hheader
            cases hheader
        | error te =>
            rw [htype] at hheader
            cases hheader
            cases te <;> cases hkind
      · cases h

/-- The fields that are read have everything the deletes need, and nothing that cannot be taken away
again. -/
structure CompletesKeys (schema : TableSchema) (fields : List Field) (file : DataFile)
    (indexes : List DeleteIndex) (all : List Field) : Prop where
  /-- The fields that are asked for stand in front, and the others are hidden key fields. -/
  exists_hidden : ∃ hidden, all = fields ++ hidden ∧
    hidden.map (·.id) = hiddenIds fields (indexes.flatMap (·.fieldIds)) ∧
      ∀ f ∈ hidden, schema.findField? f.id = some f
  nodup : (all.map (·.id)).Nodup
  complete : ∀ index ∈ indexes, ∀ id ∈ index.fieldIds, id ∈ all.map (·.id)
  needed : ∀ f ∈ all, f ∈ fields ∨ ∃ index ∈ indexes, f.id ∈ index.fieldIds
  /-- Every group of keys is resolved. -/
  resolves : ∀ group ∈ DeleteFilter.groupKeys indexes, ∃ places,
    Field.positionsOf group.1 all = .ok places ∧ Field.ArePlaces all group.1 places
  /-- Only a position past the end of the file keeps a filter from being made. -/
  refuses : ∀ check e, DeleteFilter.create file indexes all check = .error e →
    check = true ∧ ∃ last : Nat,
      e = .scan (.deleteOutOfRange (some last) file.rowCount) (some file.path)
  within : ∀ check f, DeleteFilter.create file indexes all check = .ok f → f.LiesWithin all
  leads : all.take fields.length = fields
  rows : fields.length ≤ maxIndex → ∀ values r, DeleteFilter.IsLaidOut all values r →
    DeleteFilter.IsLaidOut fields (values.take fields.length) (leading fields.length r)
  batches : ∀ reader rest b, reader.readBatch = (.ok (some b), rest) → b.LaidOut all →
    ∃ c, (keepLeading fields.length all.length reader).readBatch =
        (.ok (some c), keepLeading fields.length all.length rest) ∧
      c.LaidOut fields ∧ c.rows = b.rows.map (List.take fields.length)

theorem completesKeys (hids : (fields.map (·.id)).Nodup)
    (h : readFields schema file.path fields (indexes.flatMap (·.fieldIds)) = .ok all) :
    CompletesKeys schema fields file indexes all := by
  obtain ⟨hidden, hall, hhidden, hfound⟩ := exists_hidden_of_readFields h
  obtain ⟨-, hnodup, hcomplete⟩ := readFields_eq_ok h
  have hkeys : ∀ index ∈ indexes, ∀ id ∈ index.fieldIds, id ∈ all.map (·.id) :=
    fun index hindex id hid => hcomplete id (List.mem_flatMap.2 ⟨index, hindex, hid⟩)
  have hneeded : ∀ f ∈ all, f ∈ fields ∨ ∃ index ∈ indexes, f.id ∈ index.fieldIds := by
    intro f hf
    rw [hall] at hf
    refine (List.mem_append.1 hf).imp_right fun hf => ?_
    have hid : f.id ∈ hiddenIds fields (indexes.flatMap (·.fieldIds)) :=
      hhidden ▸ List.mem_map_of_mem hf
    exact List.mem_flatMap.1 (mem_hiddenIds.1 hid).1
  have hresolves : ∀ group ∈ DeleteFilter.groupKeys indexes, ∃ places,
      Field.positionsOf group.1 all = .ok places ∧ Field.ArePlaces all group.1 places := by
    intro group hgroup
    obtain ⟨index, hindex, -, hsame⟩ :=
      DeleteFilter.mem_ids_groupKeys.1 (List.mem_map_of_mem hgroup)
    exact Field.exists_arePlaces fun id hid => hkeys index hindex id (hsame ▸ hid)
  exact {
    exists_hidden := ⟨hidden, hall, hhidden, hfound⟩
    nodup := hnodup hids
    complete := hkeys
    needed := hneeded
    resolves := hresolves
    refuses := fun check e he => DeleteFilter.create_eq_error hkeys he
    within := fun check f hf => DeleteFilter.liesWithin (hnodup hids) hf
    leads := by rw [hall, List.take_left]
    rows := fun hmax values r hrow => isLaidOut_leading hmax (hall ▸ hrow)
    batches := by
      rw [hall]
      exact fun reader rest b hread hb => readBatch_keepLeading hread hb }

end Scan

namespace Table

variable {t : Table} {schema : TableSchema} {fields : List Field} {file : DataFile}
  {indexes : List DeleteIndex}

/-- The fields that are read for some deletes, and what is left of them in the end. -/
structure HidesKeys (t : Table) (schema : TableSchema) (fields : List Field) (file : DataFile)
    (indexes : List DeleteIndex) : Prop where
  /-- The fields are collected by the loop over the indexes. -/
  loop_eq : Scan.readFields schema file.path fields (indexes.flatMap (·.fieldIds)) =
    (Scan.ReadList.visitAll schema file.path (.start fields) indexes).map (·.fields)
  /-- The loop fails with the first key field that is unknown, or completes the fields. -/
  outcome :
    (∃ id, Scan.firstUnknown? schema fields indexes = some id ∧
      Scan.readFields schema file.path fields (indexes.flatMap (·.fieldIds)) =
        .error (.scan (.unresolved id) (some file.path))) ∨
    (Scan.firstUnknown? schema fields indexes = none ∧ ∃ all,
      Scan.readFields schema file.path fields (indexes.flatMap (·.fieldIds)) = .ok all ∧
        Scan.CompletesKeys schema fields file indexes all)
  fails : ∀ id, Scan.firstUnknown? schema fields indexes = some id →
    t.readerOver schema fields file indexes = .error (.scan (.unresolved id) (some file.path))
  /-- Nothing else says that a field is missing, unless the source of the batches does. -/
  missing : ∀ e, t.readerOver schema fields file indexes = .error e → e.kind = .schemaMismatch →
    (∃ id, Scan.firstUnknown? schema fields indexes = some id ∧
      e = .scan (.unresolved id) (some file.path)) ∨
    ∃ columns, t.source file.path file.format columns = .error e
  /-- What a reader hands out has the fields that are asked for. -/
  handsOut : ∀ reader, t.readerOver schema fields file indexes = .ok reader →
    ∀ b ∈ reader.batches.1, Field.headers fields = .ok b.header

/-- A parameter of a table never says that a field is missing. -/
theorem kind_of_checksBounds {e : Error} (h : t.checksBounds = .error e) :
    e.kind ≠ .schemaMismatch := by
  have hoption : ∀ oe : OptionError, (Error.option oe).kind ≠ .schemaMismatch := by
    intro oe
    cases oe <;> simp [Error.kind, OptionError.isOverflow]
  unfold checksBounds at h
  cases hflag : t.options.flag Options.checkBounds with
  | ok check =>
      rw [hflag] at h
      cases h
  | error oe =>
      rw [hflag] at h
      cases h
      exact hoption oe

theorem missing_of_readerOver {e : Error} (h : t.readerOver schema fields file indexes = .error e)
    (hkind : e.kind = .schemaMismatch) :
    (∃ id, Scan.firstUnknown? schema fields indexes = some id ∧
      e = .scan (.unresolved id) (some file.path)) ∨
    ∃ columns, t.source file.path file.format columns = .error e := by
  unfold readerOver at h
  rcases bind_eq_error_iff.1 h with hread | ⟨all, hall, h⟩
  · exact .inl (Scan.readFields_eq_error_iff.1 hread)
  · right
    rcases bind_eq_error_iff.1 h with hcheck | ⟨check, -, h⟩
    · exact absurd hkind (kind_of_checksBounds hcheck)
    · rcases bind_eq_error_iff.1 h with hcreate | ⟨filter, -, h⟩
      · -- Every key field is read, which leaves positions past the end of the file.
        have hkeys : ∀ index ∈ indexes, ∀ id ∈ index.fieldIds, id ∈ all.map (·.id) :=
          fun index hindex id hid =>
            (Scan.readFields_eq_ok hall).2.2 id (List.mem_flatMap.2 ⟨index, hindex, hid⟩)
        obtain ⟨-, last, rfl⟩ := DeleteFilter.create_eq_error hkeys hcreate
        cases hkind
      · rcases bind_eq_error_iff.1 h with hschema | ⟨fileSchema, -, h⟩
        · unfold TableLog.schemaById at hschema
          split at hschema
          · cases hschema
          · cases hschema
            cases hkind
        · rcases bind_eq_error_iff.1 h with hopen | ⟨reader, -, h⟩
          · exact Scan.source_eq_error_of_dataReader hopen hkind
          · cases h

theorem header_of_readerOver {reader : Reader} {b : Batch}
    (h : t.readerOver schema fields file indexes = .ok reader) (hb : b ∈ reader.batches.1) :
    Field.headers fields = .ok b.header := by
  obtain ⟨all, fileSchema, columns, stream, l, hopens, rfl⟩ := readerOver_eq_ok_iff.1 h
  obtain ⟨hidden, rfl, -⟩ := Scan.exists_hidden_of_readFields hopens.resolved
  exact Scan.Layers.header_of_batches hopens.asked hopens.total hopens.header hb

/-- Key fields that are not asked for are read and taken away again. -/
theorem hidesKeys (t : Table) (schema : TableSchema) (fields : List Field) (file : DataFile)
    (indexes : List DeleteIndex) (hids : (fields.map (·.id)).Nodup) :
    t.HidesKeys schema fields file indexes where
  loop_eq := Scan.ReadList.readFields_eq_visitAll schema file.path fields indexes
  outcome := by
    cases hunknown : Scan.firstUnknown? schema fields indexes with
    | some id =>
        exact .inl ⟨id, rfl, Scan.readFields_eq_error_iff.2 ⟨id, hunknown, rfl⟩⟩
    | none =>
        right
        cases hread : Scan.readFields schema file.path fields (indexes.flatMap (·.fieldIds)) with
        | error e =>
            obtain ⟨id, hid, -⟩ := Scan.readFields_eq_error_iff.1 hread
            rw [hunknown] at hid
            cases hid
        | ok all => exact ⟨rfl, all, rfl, Scan.completesKeys hids hread⟩
  fails id hid := by
    unfold readerOver
    rw [Scan.readFields_eq_error_iff.2 ⟨id, hid, rfl⟩]
    rfl
  missing _ h hkind := missing_of_readerOver h hkind
  handsOut _ h _ hb := header_of_readerOver h hb

/-- The other column is part of two keys, and is read behind the one that is asked for. -/
theorem hidesKeys_pair :
    let indexes := [.positions "p" [], .equalities "q" [2, 1] .empty, .equalities "r" [2] .empty]
    ([columnA].map (·.id)).Nodup ∧
      pairTable.HidesKeys pairTable.log.schema [columnA] pairTask.file indexes ∧
      Scan.readFields pairTable.log.schema pairTask.file.path [columnA]
        (indexes.flatMap (·.fieldIds)) = .ok [columnA, columnB] :=
  ⟨by decide, hidesKeys _ _ _ _ _ (by decide), rfl⟩

end Table

end MergeOnRead
