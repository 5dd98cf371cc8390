import MergeOnRead.Proofs.CanonicalKeys
import MergeOnRead.Proofs.LoadedKeys
import Mathlib.Data.Finset.Card

/-!
# The keys of a file as a set

An index of deletes by equality holds the keys of the rows of its file, whatever the order of the
rows and the batches they come in.  It is the set of these keys (`KeySet.IsSetOf`) as long as every
key is equal to itself, which is so unless a NaN is left in it (`DeleteFile.load_holdsKeys`).

Strategy:

* `KeySet.insert_cases` says what one key adds to a set; `KeySet.size_insertFrom` counts what many
  add, and `KeySet.isSetOf_insertFrom_iff` says when the result is the set of them;
* `StoredRows.HasKeys` says which keys the rows of a file have, without batches;
* `StoresKeys.load_eq_ok_iff` brings both together: the file is loaded when its rows have keys, and
  these are then inserted one after the other.
-/

namespace MergeOnRead

/-! ## Sets of keys -/

namespace KeySet

variable {s : KeySet} {origin : String} {number : Nat} {keys : List (List Value)}

theorem containsKeys_iff {key : List Key} :
    s.containsKeys key = true ↔ key ∈ s.settled.map (·.1) := by
  simp [containsKeys]

/-- What a tuple adds to a set: it is settled and new, it is settled and there, or it is loose. -/
theorem insert_cases (stamp : Stamp) (values : List Value) :
    (Key.areSettled (Value.keys values) = true ∧ Value.keys values ∉ s.settled.map (·.1) ∧
      (s.insert stamp values).1 = { s with settled := (Value.keys values, values) :: s.settled }) ∨
    (Key.areSettled (Value.keys values) = true ∧ Value.keys values ∈ s.settled.map (·.1) ∧
      (s.insert stamp values).1 = s) ∨
    (Key.areSettled (Value.keys values) = false ∧
      (s.insert stamp values).1 = { s with loose := (stamp, values) :: s.loose }) := by
  rw [insert, ← containsKeys_iff]
  by_cases hsettled : Key.areSettled (Value.keys values) = true
  · by_cases hin : s.containsKeys (Value.keys values) = true
    · exact .inr (.inl ⟨hsettled, hin, by rw [if_pos hsettled, if_pos hin]⟩)
    · exact .inl ⟨hsettled, hin, by rw [if_pos hsettled, if_neg hin]⟩
  · exact .inr (.inr ⟨by simpa using hsettled, by rw [if_neg hsettled]⟩)

/-- Every settled key is counted once, and a loose one every time. -/
theorem size_insertFrom (hs : (s.settled.map (·.1)).Nodup) :
    (s.insertFrom origin number keys).size =
      ((s.settled.map (·.1)).toFinset ∪
          ((keys.map Value.keys).filter Key.areSettled).toFinset).card +
        (s.loose.length + (keys.filter fun key => !Key.areSettled (Value.keys key)).length) := by
  induction keys generalizing s number with
  | nil => simp [insertFrom, size, List.toFinset_card_of_nodup hs]
  | cons key keys ih =>
      rw [insertFrom]
      rcases s.insert_cases ⟨origin, number⟩ key with ⟨hsettled, hnew, h⟩ | ⟨hsettled, hold, h⟩ |
        ⟨hloose, h⟩
      · have hgrown : (((Value.keys key, key) :: s.settled).map (·.1)).Nodup :=
          List.nodup_cons.2 ⟨hnew, hs⟩
        rw [h, ih (s := { s with settled := (Value.keys key, key) :: s.settled }) hgrown]
        simp [hsettled, Finset.insert_union, Finset.union_insert]
      · have hthere : Value.keys key ∈ (s.settled.map (·.1)).toFinset := List.mem_toFinset.2 hold
        rw [h, ih hs]
        simp only [List.map_cons, List.filter_cons, hsettled, if_true, List.toFinset_cons,
          Finset.union_insert, Bool.not_true, Bool.false_eq_true, if_false]
        rw [Finset.insert_eq_of_mem (Finset.mem_union_left _ hthere)]
      · rw [h, ih (s := { s with loose := (⟨origin, number⟩, key) :: s.loose }) hs]
        simp only [List.map_cons, List.filter_cons, hloose, Bool.not_false, if_true,
          Bool.false_eq_true, if_false, List.length_cons]
        omega

/-- A set holds some keys and no others, each once.  Keys are the same when their values are equal,
a null to a null and a NaN to a NaN. -/
structure IsSetOf (s : KeySet) (keys : List (List Value)) : Prop where
  contains_iff : ∀ values,
    s.contains values = true ↔ ∃ key ∈ keys, Value.keys key = Value.keys values
  size_eq : s.size = (keys.map Value.keys).toFinset.card

theorem contains_insertFrom_empty_iff {values : List Value} :
    (empty.insertFrom origin number keys).contains values = true ↔
      ∃ key ∈ keys, FoundUnder key values := by
  have hnone : empty.contains values ≠ true := by
    rw [DeleteFilter.contains_empty]
    decide
  rw [contains_insertFrom_iff, or_iff_right hnone]

/-- Keys that are inserted one after the other make the set of them when a NaN is left in none of
them, and only then. -/
theorem isSetOf_insertFrom_iff :
    (empty.insertFrom origin number keys).IsSetOf keys ↔
      ∀ key ∈ keys, Key.areSettled (Value.keys key) = true := by
  constructor
  · intro h key hkey
    obtain ⟨key', -, hsettled, -⟩ :=
      contains_insertFrom_empty_iff.1 ((h.contains_iff key).2 ⟨key, hkey, rfl⟩)
    exact hsettled
  · intro h
    refine ⟨fun values => ?_, ?_⟩
    · rw [contains_insertFrom_empty_iff]
      refine exists_congr fun key => and_congr_right fun hkey => ⟨fun hfound => hfound.2, ?_⟩
      exact fun hsame => ⟨hsame ▸ h key hkey, hsame⟩
    · have hall : (keys.map Value.keys).filter Key.areSettled = keys.map Value.keys := by
        simpa [List.filter_eq_self] using h
      have hnone : (keys.filter fun key => !Key.areSettled (Value.keys key)) = [] := by
        simpa [List.filter_eq_nil_iff] using h
      rw [size_insertFrom (by simp [empty]), hall, hnone]
      simp [empty]

end KeySet

/-- An index of deletes by equality holds the keys of the rows of its file: values are found under
one of them.  It is the set of these keys if each of them is equal to itself. -/
structure DeleteIndex.HoldsKeys (index : DeleteIndex) (f : DeleteFile) (keys : List (List Value)) :
    Prop where
  path : index.path = f.path
  fieldIds : index.fieldIds = f.fieldIds
  contains_iff : ∀ values,
    index.keys.contains values = true ↔ ∃ key ∈ keys, FoundUnder key values
  isSetOf_iff : index.keys.IsSetOf keys ↔ ∀ key ∈ keys, Key.areSettled (Value.keys key) = true

/-- Indexes of the same keys, in whatever order and however often, find the same values, and have
the same size if they are the set of these keys. -/
theorem DeleteIndex.HoldsKeys.congr {index index' : DeleteIndex} {f g : DeleteFile}
    {keys keys' : List (List Value)} (h : index.HoldsKeys f keys) (h' : index'.HoldsKeys g keys')
    (hsame : ∀ key, key ∈ keys ↔ key ∈ keys') :
    (∀ values, index.keys.contains values = index'.keys.contains values) ∧
      (index.keys.IsSetOf keys → index.keys.size = index'.keys.size) := by
  refine ⟨fun values => ?_, fun hset => ?_⟩
  · rw [Bool.eq_iff_iff, h.contains_iff, h'.contains_iff]
    simp only [hsame]
  · have hsettled := h.isSetOf_iff.1 hset
    have hset' := h'.isSetOf_iff.2 fun key hkey => hsettled key ((hsame key).2 hkey)
    rw [hset.size_eq, hset'.size_eq]
    refine congrArg Finset.card (List.toFinset.ext fun k => ?_)
    simp only [List.mem_map, hsame]

/-! ## Rows that have keys -/

/-- Every row of a file has a record and, made of its cells for some fields, a key that can be kept.
Columns keep different names in records, or there is no row. -/
structure StoredRows.HasKeys (s : StoredRows) (fields : List Field) (keys : List (List Value)) :
    Prop where
  names : 0 < s.count → (Field.recordNames fields).Nodup
  dated : ∀ p < s.count, ∀ g ∈ fields, (s.cell fields p g).every Scalar.isDated = true
  keys : List.Forall₂ (fun p key => Row.canonicalValues (fields.map (s.cell fields p)) = .ok key ∧
    Value.areHashable key = true) (List.range s.count) keys

/-- The keys of a file are determined by its rows. -/
theorem StoredRows.HasKeys.unique {s : StoredRows} {fields : List Field}
    {keys keys' : List (List Value)} (h : s.HasKeys fields keys) (h' : s.HasKeys fields keys') :
    keys = keys' := by
  have hunique : Relator.RightUnique fun p key =>
      Row.canonicalValues (fields.map (s.cell fields p)) = .ok key ∧
        Value.areHashable key = true :=
    fun _ _ _ hkey hkey' => Except.ok.inj (hkey.1.symm.trans hkey'.1)
  exact hunique.forall₂ h.keys h'.keys

/-- Rows without a NaN in the keys of maps have keys that are equal to themselves. -/
theorem StoredRows.HasKeys.areSettled {s : StoredRows} {fields : List Field}
    {keys : List (List Value)} (h : s.HasKeys fields keys)
    (hregular : ∀ p < s.count, ∀ g ∈ fields, (s.cell fields p g).isRegular = true) :
    ∀ key ∈ keys, Key.areSettled (Value.keys key) = true := by
  intro key hkey
  obtain ⟨p, hp, hcanonical, -⟩ := exists_mem_of_forall₂ h.keys hkey
  refine Row.areSettled_canonicalValues (Value.areRegular_iff.2 fun v hv => ?_) hcanonical
  obtain ⟨g, hg, rfl⟩ := List.mem_map.1 hv
  exact hregular p (List.mem_range.1 hp) g hg

namespace DeleteFile

variable {f : DeleteFile} {schema : TableSchema} {fields : List Field} {source : RowSource}
  {stored : StoredRows} {index : DeleteIndex} {keys : List (List Value)}

/-- A source delivers the rows of a file of deletes by equality under the names that its key fields
have in a schema, in whatever batches, with whatever other columns and in whatever order of them.
The columns can be converted to the types of the fields. -/
structure StoresKeys (f : DeleteFile) (schema : TableSchema) (fields : List Field)
    (source : RowSource) (stored : StoredRows) : Prop where
  content : f.content = .equalityDeletes
  ids : f.fieldIds.Nodup
  nonempty : f.fieldIds ≠ []
  addressable : f.fieldIds.length ≤ maxIndex
  names : schema.fieldNames.Nodup
  found : f.keyFields schema = .ok fields
  typed : ∃ header, Field.headers fields = .ok header
  opens : ∃ columns stream, source f.path f.format (fields.map (·.name)) = .ok stream ∧
    columns.Nodup ∧ (∀ g ∈ fields, g.name ∈ columns) ∧ stored.Delivers columns 0 stream ∧
      ∀ b, .ok b ∈ stream → b.Castable fields fields

theorem header_of_mem {stream : BatchStream} {names : List (Option String)}
    {header : List ColumnHeader} {bs : List Batch}
    (hbs : List.Forall₂ (fun r c => ∃ b, r = .ok b ∧ b.conform names header = .ok c) stream bs) :
    ∀ c ∈ bs, c.header = header := by
  intro c hc
  obtain ⟨r, -, b, -, hconform⟩ := exists_mem_of_forall₂ hbs hc
  exact Batch.header_of_conform hconform

namespace StoresKeys

theorem setKey_record (h : f.StoresKeys schema fields source stored) (p : Nat) :
    (Row.ofValues (fields.map (stored.cell fields p))).setKey =
      Row.canonicalValues (fields.map (stored.cell fields p)) := by
  refine Row.setKey_ofValues ?_
  have hlength := congrArg List.length (map_id_of_keyFields h.found)
  have hmax := h.addressable
  rw [List.length_map] at hlength ⊢
  omega

theorem nodup_ids (h : f.StoresKeys schema fields source stored) : (fields.map (·.id)).Nodup := by
  rw [map_id_of_keyFields h.found]
  exact h.ids

/-- The batches of a file have records to make keys of when its rows have records. -/
theorem exists_keyRows_iff {header : List ColumnHeader} {bs : List Batch}
    (hheader : Field.headers fields = .ok header) (hne : header ≠ [])
    (hheaders : ∀ c ∈ bs, c.header = header)
    (hrecords : (bs.flatMap fun c => c.rows.map (Batch.recordOf header)) =
      (List.range stored.count).map fun p => fields.map (stored.cell fields p)) :
    (∃ records, List.Forall₂ (fun b rows => keyRows b = .ok (rows, none)) bs records) ↔
      (0 < stored.count → (Field.recordNames fields).Nodup) ∧
        ∀ p < stored.count, ∀ g ∈ fields, (stored.cell fields p g).every Scalar.isDated = true := by
  have hnames : ∀ c ∈ bs, c.recordNames = Field.recordNames fields := by
    intro c hc
    have hforall := Field.headers_eq_ok hheader
    refine Batch.recordNames_eq ?_
    rw [Batch.names, hheaders c hc, ← List.forall₂_eq_eq_eq, List.forall₂_map_left_iff,
      List.forall₂_map_right_iff]
    exact hforall.flip.imp fun _ _ hname => hname.1
  -- The records of the batches are those of the rows.
  have hmem : ∀ record, (∃ c ∈ bs, record ∈ c.rows.map (Batch.recordOf header)) ↔
      ∃ p < stored.count, record = fields.map (stored.cell fields p) := by
    intro record
    rw [← List.mem_flatMap, hrecords]
    simp [eq_comm]
  constructor
  · rintro ⟨records, hall⟩
    have hrow : ∀ p < stored.count, (Field.recordNames fields).Nodup ∧
        (fields.map (stored.cell fields p)).all (Value.every Scalar.isDated) = true := by
      intro p hp
      obtain ⟨c, hc, hrecord⟩ := (hmem _).2 ⟨p, hp, rfl⟩
      obtain ⟨rows, -, hrows⟩ := exists_mem_of_forall₂ hall.flip hc
      obtain ⟨rfl, hempty | ⟨hdistinct, hdated⟩⟩ :=
        (keyRows_eq_ok_iff (hheaders c hc ▸ hne)).1 hrows
      · obtain ⟨row, hin, -⟩ := List.mem_map.1 hrecord
        rw [List.eq_nil_of_length_eq_zero hempty] at hin
        cases hin
      · rw [hheaders c hc, Batch.areDated, List.all_eq_true] at hdated
        exact ⟨hnames c hc ▸ hdistinct, hdated _ hrecord⟩
    refine ⟨fun hcount => (hrow 0 hcount).1, fun p hp => ?_⟩
    simpa using (hrow p hp).2
  · rintro ⟨hdistinct, hdated⟩
    refine ⟨bs.map fun c => c.rows.map (Batch.recordOf c.header), ?_⟩
    rw [List.forall₂_map_right_iff, List.forall₂_same]
    intro c hc
    refine (keyRows_eq_ok_iff (hheaders c hc ▸ hne)).2 ⟨rfl, ?_⟩
    rw [hheaders c hc, hnames c hc]
    rcases Nat.eq_zero_or_pos c.size with hempty | hpos
    · exact .inl hempty
    · refine .inr ⟨?_, ?_⟩
      · obtain ⟨row, hrow⟩ := List.exists_mem_of_length_pos hpos
        obtain ⟨p, hp, -⟩ := (hmem _).1 ⟨c, hc, List.mem_map_of_mem hrow⟩
        exact hdistinct (Nat.zero_lt_of_lt hp)
      · rw [Batch.areDated, List.all_eq_true]
        intro record hrecord
        obtain ⟨p, hp, rfl⟩ := (hmem _).1 ⟨c, hc, hrecord⟩
        simpa using hdated p hp

/-- A file of deletes by equality is loaded exactly when all of its rows have keys; and then its
index is made of them. -/
theorem load_eq_ok_iff (h : f.StoresKeys schema fields source stored) :
    f.load source schema = .ok index ↔
      ∃ keys, stored.HasKeys fields keys ∧
        index = .equalities f.path f.fieldIds (KeySet.empty.insertFrom f.path 0 keys) := by
  obtain ⟨columns, stream, hopen, hnodup, hfound, hstream, hcasts⟩ := h.opens
  obtain ⟨header, hheader⟩ := h.typed
  have hload : f.load source schema = f.loadEqualities source schema := by
    rw [load, h.content]
  rw [hload]
  have hne := headers_ne_nil h.found h.nonempty hheader
  have hrecords : ∀ bs : List Batch,
      List.Forall₂ (fun r c => ∃ b, r = .ok b ∧
        b.conform ((fields.map (·.name)).map some) header = .ok c) stream bs →
      (bs.flatMap fun c => c.rows.map (Batch.recordOf header)) =
        (List.range stored.count).map fun p => fields.map (stored.cell fields p) :=
    fun bs hbs => by
      simpa only [Nat.sub_zero, ← List.range_eq_range'] using
        hstream.flatMap_records h.nodup_ids hnodup hfound hheader hne hbs
  rw [loadEqualities_eq_ok_iff h.found hopen]
  constructor
  · rintro ⟨header', hheader', bs, hbs, added, hadd, rfl⟩
    cases hheader.symm.trans hheader'
    obtain ⟨records, hkeyRows, keys, hadded, rfl⟩ := addKeys_eq_ok_iff.1 hadd
    rw [flatten_of_keyRows hbs hne hkeyRows, hrecords bs hbs, List.forall₂_map_left_iff] at hadded
    obtain ⟨hdistinct, hdated⟩ := (exists_keyRows_iff hheader hne (header_of_mem hbs)
      (hrecords bs hbs)).1 ⟨records, hkeyRows⟩
    refine ⟨keys, ⟨hdistinct, hdated, hadded.imp fun p key hkey => ?_⟩, rfl⟩
    rwa [setKey_record h] at hkey
  · rintro ⟨keys, hkeys, rfl⟩
    obtain ⟨bs, hbs⟩ := hstream.exists_conformed hnodup (fun g hg name hname => by
      rw [Field.nameOf?_self h.nodup_ids hg, Option.mem_some_iff] at hname
      exact hname ▸ hfound g hg) hheader hcasts
    rw [StoredRows.physicalNames_self h.nodup_ids] at hbs
    obtain ⟨records, hkeyRows⟩ := (exists_keyRows_iff hheader hne (header_of_mem hbs)
      (hrecords bs hbs)).2 ⟨hkeys.names, hkeys.dated⟩
    refine ⟨header, hheader, bs, hbs, _,
      addKeys_eq_ok_iff.2 ⟨records, hkeyRows, keys, ?_, rfl⟩, rfl⟩
    rw [flatten_of_keyRows hbs hne hkeyRows, hrecords bs hbs, List.forall₂_map_left_iff]
    refine hkeys.keys.imp fun p key hkey => ?_
    rwa [setKey_record h]

/-- The index of a file that is loaded holds the keys of its rows. -/
theorem holds_of_load (h : f.StoresKeys schema fields source stored)
    (hkeys : stored.HasKeys fields keys) (hload : f.load source schema = .ok index) :
    index.HoldsKeys f keys := by
  obtain ⟨keys', hkeys', rfl⟩ := h.load_eq_ok_iff.1 hload
  obtain rfl := hkeys.unique hkeys'
  refine ⟨rfl, rfl, fun values => KeySet.contains_insertFrom_empty_iff, ?_⟩
  exact KeySet.isSetOf_insertFrom_iff

end StoresKeys

/-- The first key field that a schema lacks is the error, and the file is not opened. -/
theorem load_of_unknown {id : Int} (hcontent : f.content = .equalityDeletes)
    (hid : f.fieldIds.find? (fun id => (schema.findField? id).isNone) = some id)
    (source : RowSource) :
    f.load source schema = .error (.scan (.unknownKeyField id schema.id) (some f.path)) := by
  have hfields :
      f.keyFields schema = .error (.scan (.unknownKeyField id schema.id) (some f.path)) := by
    obtain ⟨hlacks, before, after, hsplit, hfound⟩ := List.find?_eq_some_iff_append.1 hid
    refine mapM_eq_error_iff.2 ⟨before, id, after, hsplit, fun other hother => ?_, ?_⟩
    · have hother' := hfound other hother
      rw [Bool.not_eq_true', Option.isNone_eq_false_iff] at hother'
      obtain ⟨field, hfield⟩ := Option.isSome_iff_exists.1 hother'
      exact ⟨field, by rw [hfield]⟩
    · rw [Option.isNone_iff_eq_none.1 hlacks]
  rw [load, hcontent]
  change f.loadEqualities source schema = _
  rw [loadEqualities, hfields]
  rfl

/-! ## A file of maps -/

/-- A field of maps between doubles. -/
def mapField : Field := ⟨1, "v", .map (.atomic "DOUBLE" true) (.atomic "DOUBLE" true) true, none⟩

/-- A schema with this field alone. -/
def mapSchema : TableSchema := ⟨0, [mapField], [], 1, []⟩

/-- A file of deletes by maps. -/
def sampleEqualities : DeleteFile where
  path := "deletes"
  format := "parquet"
  partition := []
  content := .equalityDeletes
  recordCount := 3
  fieldIds := [1]

/-- Maps as the rows of a file. -/
def mapRows (maps : List Value) : StoredRows :=
  .ofRows (fun _ => .map (.flat .double) (.flat .double)) (maps.map fun v _ => v)

/-- The bits of one, and of a NaN. -/
def one : UInt64 := 0x3ff0000000000000

def nan : UInt64 := 0x7ff8000000000000

/-- A map with one entry. -/
def sampleMap (key value : UInt64) : Value := .list [.tuple [.float ⟨key⟩, .float ⟨value⟩]]

theorem storesKeys_mapRows {maps : List Value} {counts : List Nat}
    (hcounts : counts.foldl (· + ·) 0 = maps.length) :
    sampleEqualities.StoresKeys mapSchema [mapField] ((mapRows maps).source counts)
      (mapRows maps) where
  content := rfl
  ids := by decide
  nonempty := by decide
  addressable := by decide
  names := by decide
  found := by decide
  typed := ⟨_, rfl⟩
  opens := by
    refine ⟨["v"], _, rfl, by decide, by decide, StoredRows.delivers_divided (fun p => rfl) ?_,
      fun b hb => StoredRows.castable_of_mem_divided (fun g hg name hfound p => ?_) hb⟩
    · exact hcounts.trans (List.length_map ..).symm
    · cases List.mem_singleton.1 hg
      rfl

/-! ## The set of the keys -/

/-- **The index of a file of deletes by equality is the set of its projected keys**, unless a NaN is
left in one of them: canonical forms replace a NaN, but not in the keys of a map.  Such a key is
found by no values, and counts as often as it occurs.

A key field that the schema lacks is the error, the first one in the order of declaration, whatever
the source.  Otherwise the file is loaded when all of its rows have keys, and its index holds them.
Files with rows of the same keys, in any order and batches and however often, have indexes that hold
the same. -/
theorem load_holdsKeys (hcontent : f.content = .equalityDeletes) :
    (∀ id, f.fieldIds.find? (fun id => (schema.findField? id).isNone) = some id → ∀ source,
      f.load source schema = .error (.scan (.unknownKeyField id schema.id) (some f.path))) ∧
    ∀ {fields : List Field} {source : RowSource} {stored : StoredRows},
      f.StoresKeys schema fields source stored →
      ((∃ index, f.load source schema = .ok index) ↔ ∃ keys, stored.HasKeys fields keys) ∧
      ∀ {keys : List (List Value)} {index : DeleteIndex}, stored.HasKeys fields keys →
        f.load source schema = .ok index →
        index.HoldsKeys f keys ∧
        ((∀ p < stored.count, ∀ g ∈ fields, (stored.cell fields p g).isRegular = true) →
          index.keys.IsSetOf keys) ∧
        ∀ {g : DeleteFile} {source' : RowSource} {stored' : StoredRows}
          {keys' : List (List Value)}, g.StoresKeys schema fields source' stored' →
          stored'.HasKeys fields keys' → (∀ key, key ∈ keys ↔ key ∈ keys') →
            ∃ index', g.load source' schema = .ok index' ∧
              (∀ values, index.keys.contains values = index'.keys.contains values) ∧
              (index.keys.IsSetOf keys → index.keys.size = index'.keys.size) := by
  refine ⟨fun id hid source => load_of_unknown hcontent hid source, fun h => ⟨?_, ?_⟩⟩
  · constructor
    · rintro ⟨index, hload⟩
      obtain ⟨keys, hkeys, -⟩ := h.load_eq_ok_iff.1 hload
      exact ⟨keys, hkeys⟩
    · rintro ⟨keys, hkeys⟩
      exact ⟨_, h.load_eq_ok_iff.2 ⟨keys, hkeys, rfl⟩⟩
  · intro keys index hkeys hload
    have hholds := h.holds_of_load hkeys hload
    refine ⟨hholds, fun hregular => hholds.isSetOf_iff.2 (hkeys.areSettled hregular), ?_⟩
    intro g source' stored' keys' h' hkeys' hsame
    have hload' := h'.load_eq_ok_iff.2 ⟨keys', hkeys', rfl⟩
    exact ⟨_, hload', hholds.congr (h'.holds_of_load hkeys' hload') hsame⟩

theorem load_sampleEqualities :
    sampleEqualities.load (fun _ _ _ => .ok []) ⟨0, [], [], 0, []⟩ =
        .error (.scan (.unknownKeyField 1 0) (some "deletes")) ∧
      (∃ index, sampleEqualities.load
          ((mapRows [sampleMap one nan, .null, sampleMap one nan]).source [1, 0, 2]) mapSchema =
            .ok index ∧ index.keys.size = 2 ∧
          index.keys.contains [.tuple [.tuple [.float ⟨one⟩, .scalar .nan]]] = true) ∧
      ∃ index, sampleEqualities.load ((mapRows [sampleMap nan one, sampleMap nan one]).source
        [2]) mapSchema = .ok index ∧ ¬index.keys.IsSetOf
          (List.replicate 2 [.tuple [.tuple [.float ⟨nan⟩, .float ⟨one⟩]]]) := by
  have hsettled : (mapRows [sampleMap one nan, .null, sampleMap one nan]).HasKeys [mapField]
      [[.tuple [.tuple [.float ⟨one⟩, .scalar .nan]]], [.null],
        [.tuple [.tuple [.float ⟨one⟩, .scalar .nan]]]] :=
    ⟨fun _ => by decide, by decide, .cons ⟨rfl, rfl⟩ (.cons ⟨rfl, rfl⟩ (.cons ⟨rfl, rfl⟩ .nil))⟩
  have hloose : (mapRows [sampleMap nan one, sampleMap nan one]).HasKeys [mapField]
      (List.replicate 2 [.tuple [.tuple [.float ⟨nan⟩, .float ⟨one⟩]]]) :=
    ⟨fun _ => by decide, by decide, .cons ⟨rfl, rfl⟩ (.cons ⟨rfl, rfl⟩ .nil)⟩
  have h : sampleEqualities.StoresKeys mapSchema [mapField]
      ((mapRows [sampleMap one nan, .null, sampleMap one nan]).source [1, 0, 2])
      (mapRows [sampleMap one nan, .null, sampleMap one nan]) := storesKeys_mapRows rfl
  have h' : sampleEqualities.StoresKeys mapSchema [mapField]
      ((mapRows [sampleMap nan one, sampleMap nan one]).source [2])
      (mapRows [sampleMap nan one, sampleMap nan one]) := storesKeys_mapRows rfl
  refine ⟨(load_holdsKeys rfl).1 1 (by decide) _, ?_, ?_⟩
  · obtain ⟨hloads, hindex⟩ := (load_holdsKeys (f := sampleEqualities) rfl).2 h
    obtain ⟨index, hload⟩ := hloads.2 ⟨_, hsettled⟩
    obtain ⟨-, hset, -⟩ := hindex hsettled hload
    have hregular := hset (by decide)
    exact ⟨index, hload, hregular.size_eq.trans (by decide),
      (hregular.contains_iff _).2 ⟨_, List.mem_cons_self .., rfl⟩⟩
  · obtain ⟨hloads, hindex⟩ := (load_holdsKeys (f := sampleEqualities) rfl).2 h'
    obtain ⟨index, hload⟩ := hloads.2 ⟨_, hloose⟩
    refine ⟨index, hload, fun hset => ?_⟩
    have hall := (hindex hloose hload).1.isSetOf_iff.1 hset
    exact absurd (hall _ (List.mem_cons_self ..)) (by decide)

end DeleteFile

end MergeOnRead
