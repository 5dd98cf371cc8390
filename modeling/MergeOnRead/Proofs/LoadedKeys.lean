import MergeOnRead.Proofs.ConformedStreams
import MergeOnRead.Proofs.DeleteLoading
import MergeOnRead.Proofs.FilterParts
import MergeOnRead.Proofs.Rows

/-!
# The keys of a file of deletes

An index of deletes by equality is made of the canonical keys of the rows of its file, in their
order (`exists_keys_of_load`), and values are found in it under one of these keys
(`contains_iff_of_load`).  The key of a row is made of its cells for the key fields.

Strategy:

* `KeySet.addRows_eq_iff` and `addKeys_eq_ok_iff`: adding rows comes to the end when all of them
  have keys that can be kept, and then the keys are inserted one after the other
  (`KeySet.insertFrom`);
* `KeySet.contains_insertFrom_iff`: a set has the keys it had before and those that are inserted;
* `keyRows_eq_ok_iff`: the records of a batch are made of its rows, which are those of the file
  wherever it is divided (`StoredRows.Delivers.flatMap_records`).
-/

namespace MergeOnRead

/-! ## Adding keys -/

/-- Values are found under a key. -/
def FoundUnder (key values : List Value) : Prop :=
  Key.areSettled (Value.keys values) = true ∧ Value.keys key = Value.keys values

namespace KeySet

variable {s t : KeySet} {values : List Value}

theorem contains_insert_iff {stamp : Stamp} {key : List Value} :
    (s.insert stamp key).1.contains values = true ↔
      s.contains values = true ∨ FoundUnder key values := by
  rw [insert]
  by_cases hsettled : Key.areSettled (Value.keys key) = true
  · by_cases hin : s.containsKeys (Value.keys key) = true
    · -- The key is there already.
      rw [if_pos hsettled, if_pos hin]
      refine ⟨.inl, ?_⟩
      rintro (h | ⟨hvalues, hsame⟩)
      · exact h
      · rw [contains, hvalues, ← hsame, hin, Bool.and_self]
    · rw [if_pos hsettled, if_neg hin]
      simp only [contains, containsKeys, List.any_cons, FoundUnder, Bool.and_eq_true,
        Bool.or_eq_true, beq_iff_eq]
      constructor
      · rintro ⟨hvalues, h | h⟩
        · exact .inr ⟨hvalues, h⟩
        · exact .inl ⟨hvalues, h⟩
      · rintro (⟨hvalues, h⟩ | ⟨hvalues, h⟩)
        · exact ⟨hvalues, .inr h⟩
        · exact ⟨hvalues, .inl h⟩
  · -- A loose key is found by no values.
    rw [if_neg hsettled]
    refine ⟨.inl, ?_⟩
    rintro (h | ⟨hvalues, hsame⟩)
    · exact h
    · rw [hsame] at hsettled
      exact absurd hvalues hsettled

/-- Inserts tuples in order, under stamps that are numbered from a number on. -/
def insertFrom (s : KeySet) (origin : String) : (number : Nat) → List (List Value) → KeySet
  | _, [] => s
  | number, key :: keys => (s.insert ⟨origin, number⟩ key).1.insertFrom origin (number + 1) keys

theorem contains_insertFrom_iff {origin : String} {number : Nat} {keys : List (List Value)} :
    (s.insertFrom origin number keys).contains values = true ↔
      s.contains values = true ∨ ∃ key ∈ keys, FoundUnder key values := by
  induction keys generalizing s number with
  | nil => simp [insertFrom]
  | cons key keys ih => simp [insertFrom, ih, contains_insert_iff, or_assoc]

theorem insertFrom_append {origin : String} {number : Nat} {keys more : List (List Value)} :
    s.insertFrom origin number (keys ++ more) =
      (s.insertFrom origin number keys).insertFrom origin (number + keys.length) more := by
  induction keys generalizing s number with
  | nil => rfl
  | cons key keys ih =>
      rw [List.cons_append, insertFrom, ih, insertFrom, List.length_cons,
        show number + 1 + keys.length = number + (keys.length + 1) by omega]

/-- Rows are added when all of them have keys that can be kept, and then their keys are inserted. -/
theorem addRows_eq_iff {origin : String} {number : Nat} {rows : List Row} :
    s.addRows origin number rows = (t, none) ↔
      ∃ keys, List.Forall₂ (fun r key => r.setKey = .ok key ∧ Value.areHashable key = true) rows
        keys ∧ t = s.insertFrom origin number keys := by
  induction rows generalizing s number with
  | nil =>
      constructor
      · rintro ⟨⟩
        exact ⟨[], .nil, rfl⟩
      · rintro ⟨keys, ⟨⟩, rfl⟩
        rfl
  | cons r rows ih =>
      simp only [List.forall₂_cons_left_iff]
      rw [addRows]
      cases hkey : r.setKey with
      | error e => simp [addRow, hkey]
      | ok key =>
          by_cases hhashable : Value.areHashable key = true
          · simp only [addRow, hkey, ok_bind, if_pos hhashable, ih]
            constructor
            · rintro ⟨keys, hkeys, rfl⟩
              exact ⟨key :: keys, ⟨key, keys, ⟨rfl, hhashable⟩, hkeys, rfl⟩, rfl⟩
            · rintro ⟨-, ⟨key', keys, ⟨hsame, -⟩, hkeys, rfl⟩, rfl⟩
              cases hsame
              exact ⟨keys, hkeys, rfl⟩
          · simp only [addRow, hkey, ok_bind, if_neg hhashable]
            constructor
            · nofun
            · rintro ⟨-, ⟨key', keys, ⟨hsame, hkept⟩, -⟩, -⟩
              cases hsame
              exact absurd hkept hhashable

end KeySet

namespace Row

/-- Collecting the values of a row of values goes through them. -/
theorem collect_ofValues {α : Type} {make : Value → Except RowError α} {values : List Value}
    (hmax : values.length ≤ maxIndex) {position count : Nat}
    (hcount : position + count = values.length) :
    (ofValues values).collect make position count = (values.drop position).mapM make := by
  induction count generalizing position with
  | zero =>
      rw [List.drop_eq_nil_of_le (by omega)]
      rfl
  | succ count ih =>
      have hlt : position < values.length := by omega
      have hget : (ofValues values).get position = .ok values[position] := by
        rw [ofValues, get, if_neg (by omega), itemAt_of_lt hlt hmax]
      rw [collect, hget, ok_bind, ih (by omega), List.drop_eq_getElem_cons hlt, List.mapM_cons]
      rfl

/-- The key of a row of values consists of their canonical forms. -/
theorem setKey_ofValues {values : List Value} (hmax : values.length ≤ maxIndex) :
    (ofValues values).setKey = canonicalValues values := by
  have hsize : (ofValues values).size = .ok values.length := by
    rw [size, ofValues, arity, if_neg (by omega), if_neg (by omega), Int.toNat_natCast]
  have hkey : (ofValues values).setKey = (ofValues values).key := rfl
  rw [hkey, key, hsize, ok_bind, collect_ofValues hmax (Nat.zero_add _), List.drop_zero]
  rfl

/-- A row of values that has a key has the canonical forms of the values for its key. -/
theorem setKey_ofValues_iff {values : List Value} (h : ∃ key, (ofValues values).setKey = .ok key)
    {key : List Value} :
    (ofValues values).setKey = .ok key ↔ canonicalValues values = .ok key := by
  by_cases hmax : values.length ≤ maxIndex
  · rw [setKey_ofValues hmax]
  · -- A row with so many values would have no key.
    obtain ⟨key, hkey⟩ := h
    have hsame : (ofValues values).setKey = (ofValues values).key := rfl
    have hsize : (ofValues values).size = .error .oversized := by
      rw [size, ofValues, arity, if_neg (by omega), if_pos (by omega)]
    rw [hsame, Row.key, hsize] at hkey
    cases hkey

end Row

/-! ## The records of batches -/

namespace DeleteFile

variable {f : DeleteFile} {bs : List Batch}

/-- A batch has records to make keys of when it has no rows, or names for its columns that differ
and days that can be named.  They are made of its rows. -/
theorem keyRows_eq_ok_iff {b : Batch} (hheader : b.header ≠ []) {records : List (List Value)} :
    keyRows b = .ok (records, none) ↔ records = b.rows.map (Batch.recordOf b.header) ∧
      (b.size = 0 ∨ b.recordNames.Nodup ∧ Batch.areDated records = true) := by
  rw [keyRows]
  by_cases hsize : b.size = 0
  · rw [if_pos hsize, List.eq_nil_of_length_eq_zero (show b.rows.length = 0 from hsize)]
    constructor
    · rintro ⟨⟩
      exact ⟨rfl, .inl hsize⟩
    · rintro ⟨rfl, -⟩
      rfl
  · rw [if_neg hsize]
    by_cases hnames : b.recordNames.Nodup
    · rw [Batch.recordBlocks, Batch.decoded_eq_ok hnames hheader, ok_bind]
      by_cases hdated : Batch.areDated (b.rows.map (Batch.recordOf b.header)) = true
      · rw [if_pos hdated]
        constructor
        · rintro ⟨⟩
          exact ⟨rfl, .inr ⟨hnames, hdated⟩⟩
        · rintro ⟨rfl, -⟩
          rfl
      · rw [if_neg hdated]
        constructor
        · intro h
          cases h
        · rintro ⟨rfl, h | ⟨-, h⟩⟩
          · exact absurd h hsize
          · exact absurd h hdated
    · rw [Batch.recordBlocks, Batch.decoded, if_neg hnames]
      simp [hsize, hnames]

/-- The keys of batches are added when all of their records have keys that can be kept. -/
theorem addKeys_eq_ok_iff {s t : KeySet} {number : Nat} :
    f.addKeys s number bs = .ok t ↔
      ∃ records, List.Forall₂ (fun b rows => keyRows b = .ok (rows, none)) bs records ∧
        ∃ keys, List.Forall₂ (fun record key => (Row.ofValues record).setKey = .ok key ∧
          Value.areHashable key = true) records.flatten keys ∧
            t = s.insertFrom f.path number keys := by
  induction bs generalizing s number with
  | nil =>
      constructor
      · rintro ⟨⟩
        exact ⟨[], .nil, [], .nil, rfl⟩
      · rintro ⟨records, ⟨⟩, keys, ⟨⟩, rfl⟩
        rfl
  | cons b bs ih =>
      rw [addKeys, bind_eq_ok_iff]
      constructor
      · rintro ⟨⟨rows, failure⟩, hrows, h⟩
        cases hadd : s.addRows f.path number (rows.map Row.ofValues) with
        | mk u error =>
            simp only [hadd] at h
            split at h
            · cases h
            · cases h
            · rename_i hsame
              obtain ⟨rfl, rfl⟩ := Prod.mk.inj hsame
              obtain ⟨keys, hkeys, rfl⟩ := KeySet.addRows_eq_iff.1 hadd
              rw [List.forall₂_map_left_iff] at hkeys
              obtain ⟨records, hrecords, more, hmore, rfl⟩ := ih.1 h
              refine ⟨rows :: records, .cons hrows hrecords, keys ++ more,
                List.rel_append hkeys hmore, ?_⟩
              rw [KeySet.insertFrom_append, hkeys.length_eq]
      · rintro ⟨all, hrecords, keys, hkeys, rfl⟩
        obtain ⟨rows, records, hrows, hrest, rfl⟩ := List.forall₂_cons_left_iff.1 hrecords
        rw [List.flatten_cons] at hkeys
        obtain ⟨first, more, hfirst, hmore, rfl⟩ := exists_of_forall₂_append hkeys
        refine ⟨(rows, none), hrows, ?_⟩
        have hadd : s.addRows f.path number (rows.map Row.ofValues) =
            (s.insertFrom f.path number first, none) :=
          KeySet.addRows_eq_iff.2 ⟨first, List.forall₂_map_left_iff.2 hfirst, rfl⟩
        simp only [hadd]
        refine ih.2 ⟨records, hrest, more, hmore, ?_⟩
        rw [KeySet.insertFrom_append, hfirst.length_eq]

end DeleteFile

/-! ## The records of a file -/

namespace StoredRows

variable {stored : StoredRows} {columns : List String} {fields : List Field}
  {header : List ColumnHeader} {position : Nat} {stream : BatchStream} {bs : List Batch}

/-- Where ids differ, fields are found by their own ids under their own names. -/
theorem physicalNames_self (hids : (fields.map (·.id)).Nodup) :
    Field.physicalNames fields fields = (fields.map (·.name)).map some := by
  rw [Field.physicalNames, List.map_map]
  exact List.map_congr_left fun f hf => Field.nameOf?_self hids hf

/-- A batch is conformed to columns of its own row by row. -/
theorem Holds.recordOf_conform_self {b c : Batch} (hb : stored.Holds columns position b)
    (hids : (fields.map (·.id)).Nodup) (hnodup : columns.Nodup)
    (hfound : ∀ g ∈ fields, g.name ∈ columns) (hheader : Field.headers fields = .ok header)
    (hne : header ≠ []) (hconform : b.conform ((fields.map (·.name)).map some) header = .ok c) :
    c.header = header ∧ c.size = b.size ∧ c.rows.map (Batch.recordOf header) =
      (List.range b.size).map fun i => fields.map (stored.cell fields (position + i)) := by
  rw [← physicalNames_self hids] at hconform
  refine hb.recordOf_conform hnodup (fun g hg name hname => ?_) hheader hne hconform
  rw [Field.nameOf?_self hids hg, Option.mem_some_iff] at hname
  exact hname ▸ hfound g hg

/-- The records of a file that is delivered are those of its rows. -/
theorem Delivers.flatMap_records (hstream : stored.Delivers columns position stream)
    (hids : (fields.map (·.id)).Nodup) (hnodup : columns.Nodup)
    (hfound : ∀ g ∈ fields, g.name ∈ columns) (hheader : Field.headers fields = .ok header)
    (hne : header ≠ [])
    (hbatches : List.Forall₂
      (fun r c => ∃ b, r = .ok b ∧ b.conform ((fields.map (·.name)).map some) header = .ok c)
      stream bs) :
    (bs.flatMap fun c => c.rows.map (Batch.recordOf header)) =
      (List.range' position (stored.count - position)).map fun p =>
        fields.map (stored.cell fields p) :=
  hstream.flatMap_eq hbatches fun _ _ _ hb _ hconform =>
    (hb.recordOf_conform_self hids hnodup hfound hheader hne hconform).2.2

end StoredRows

namespace DeleteFile

variable {f : DeleteFile} {source : RowSource} {schema : TableSchema} {fields : List Field}
  {stored : StoredRows} {columns : List String} {stream : BatchStream} {index : DeleteIndex}

/-- A file is loaded when its columns can be conformed to the key fields, and all keys added. -/
theorem loadEqualities_eq_ok_iff (hfields : f.keyFields schema = .ok fields)
    (hopen : source f.path f.format (fields.map (·.name)) = .ok stream) :
    f.loadEqualities source schema = .ok index ↔
      ∃ header, Field.headers fields = .ok header ∧ ∃ bs, List.Forall₂
        (fun r c => ∃ b, r = .ok b ∧ b.conform ((fields.map (·.name)).map some) header = .ok c)
        stream bs ∧ ∃ keys, f.addKeys .empty 0 bs = .ok keys ∧
          index = .equalities f.path f.fieldIds keys := by
  rw [loadEqualities, hfields, ok_bind, openFields, hopen, ok_bind]
  cases hheader : Field.headers fields with
  | error e => simp [liftError]
  | ok header =>
      simp only [liftError, ok_bind, Except.ok.injEq, exists_eq_left']
      cases hbatches : (Reader.conformed ((fields.map (·.name)).map some) header
        (.stream stream 0)).batches with
      | mk bs failure =>
          constructor
          · intro h
            obtain ⟨keys, hadd, h⟩ := bind_eq_ok_iff.1 h
            cases failure with
            | some e => cases h
            | none =>
                cases h
                exact ⟨bs, Reader.batches_conformed_iff.1 hbatches, keys, hadd, rfl⟩
          · rintro ⟨bs', hbs', keys, hadd, rfl⟩
            obtain ⟨rfl, rfl⟩ :=
              Prod.mk.inj (hbatches.symm.trans (Reader.batches_conformed_iff.2 hbs'))
            simp only [hadd, ok_bind]

/-- A file with key fields has columns for them. -/
theorem headers_ne_nil {header : List ColumnHeader} (hfields : f.keyFields schema = .ok fields)
    (hkeys : f.fieldIds ≠ []) (hheader : Field.headers fields = .ok header) : header ≠ [] := by
  rintro rfl
  have hlength := (Field.headers_eq_ok hheader).length_eq
  rw [List.length_nil, List.length_eq_zero_iff] at hlength
  rw [← map_id_of_keyFields hfields, hlength] at hkeys
  exact hkeys rfl

/-- The records of conformed batches are made of their rows. -/
theorem flatten_of_keyRows {names : List (Option String)} {header : List ColumnHeader}
    {bs : List Batch} {records : List (List (List Value))}
    (hbs : List.Forall₂ (fun r c => ∃ b, r = .ok b ∧ b.conform names header = .ok c) stream bs)
    (hne : header ≠ [])
    (hrecords : List.Forall₂ (fun b rows => keyRows b = .ok (rows, none)) bs records) :
    records.flatten = bs.flatMap fun c => c.rows.map (Batch.recordOf header) := by
  induction hrecords generalizing stream with
  | nil => rfl
  | @cons c rows bs records hrows hrest ih =>
      obtain ⟨r, more, ⟨b, rfl, hconform⟩, hmore, rfl⟩ := List.forall₂_cons_right_iff.1 hbs
      have hheader := Batch.header_of_conform hconform
      obtain ⟨rfl, -⟩ := (keyRows_eq_ok_iff (hheader ▸ hne)).1 hrows
      rw [List.flatten_cons, List.flatMap_cons, ih hmore, hheader]

/-- **The index of a file is made of the keys of its rows**, in their order. -/
theorem exists_keys_of_load (hfields : f.keyFields schema = .ok fields) (hids : f.fieldIds.Nodup)
    (hkeys : f.fieldIds ≠ []) (hnodup : columns.Nodup) (hfound : ∀ g ∈ fields, g.name ∈ columns)
    (hopen : source f.path f.format (fields.map (·.name)) = .ok stream)
    (hstream : stored.Delivers columns 0 stream) (h : f.loadEqualities source schema = .ok index) :
    ∃ keys, List.Forall₂ (fun p key =>
        Row.canonicalValues (fields.map (stored.cell fields p)) = .ok key ∧
          Value.areHashable key = true) (List.range stored.count) keys ∧
      index = .equalities f.path f.fieldIds (KeySet.empty.insertFrom f.path 0 keys) := by
  obtain ⟨header, hheader, bs, hbs, added, hadd, rfl⟩ :=
    (loadEqualities_eq_ok_iff hfields hopen).1 h
  have hids' : (fields.map (·.id)).Nodup := by rwa [map_id_of_keyFields hfields]
  have hne := headers_ne_nil hfields hkeys hheader
  obtain ⟨records, hrecords, keys, hadded, rfl⟩ := addKeys_eq_ok_iff.1 hadd
  rw [flatten_of_keyRows hbs hne hrecords, hstream.flatMap_records hids' hnodup hfound hheader hne
    hbs, List.forall₂_map_left_iff, Nat.sub_zero, ← List.range_eq_range'] at hadded
  refine ⟨keys, hadded.imp fun p key hkey => ?_, rfl⟩
  exact ⟨(Row.setKey_ofValues_iff ⟨key, hkey.1⟩).1 hkey.1, hkey.2⟩

/-- Values are found in the index of a file under the keys of its rows, and under no others. -/
theorem contains_iff_of_load {values : List Value} (hfields : f.keyFields schema = .ok fields)
    (hids : f.fieldIds.Nodup) (hkeys : f.fieldIds ≠ []) (hnodup : columns.Nodup)
    (hfound : ∀ g ∈ fields, g.name ∈ columns)
    (hopen : source f.path f.format (fields.map (·.name)) = .ok stream)
    (hstream : stored.Delivers columns 0 stream) (h : f.loadEqualities source schema = .ok index) :
    index.keys.contains values = true ↔
      ∃ p < stored.count, ∃ key,
        Row.canonicalValues (fields.map (stored.cell fields p)) = .ok key ∧
          FoundUnder key values := by
  obtain ⟨keys, hrows, rfl⟩ :=
    exists_keys_of_load hfields hids hkeys hnodup hfound hopen hstream h
  have hnone : KeySet.empty.contains values ≠ true := by
    rw [DeleteFilter.contains_empty]
    decide
  rw [DeleteIndex.keys, KeySet.contains_insertFrom_iff, or_iff_right hnone]
  constructor
  · rintro ⟨key, hkey, hunder⟩
    obtain ⟨p, hp, hrow, -⟩ := exists_mem_of_forall₂ hrows hkey
    exact ⟨p, List.mem_range.1 hp, key, hrow, hunder⟩
  · rintro ⟨p, hp, key, hrow, hunder⟩
    obtain ⟨key', hkey', hrow', -⟩ := exists_mem_of_forall₂ hrows.flip (List.mem_range.2 hp)
    obtain rfl := Except.ok.inj (hrow.symm.trans hrow')
    exact ⟨key, hkey', hunder⟩

end DeleteFile

end MergeOnRead
