import MergeOnRead.Proofs.Lists
import MergeOnRead.Proofs.SchemaGrowth
import MergeOnRead.Proofs.TypeNames

/-!
# Schemas are restored from their columns

A schema is written down as the columns that its fields are read into.  They carry the ids, the
names, which fields are nullable, and the types of the columns.  They do not carry descriptions, nor
the words in which a type is told, nor what is nullable inside of it.  What is restored from them
has the same columns, and is restored from these as it is: no more is lost the second time.

Strategy:

* `DataType.flatType_cases` lists the types without parts that fields can have; each has a name that
  tells it (`FlatType.exists_typeName_of_flatType`), and so has every type that is put together from
  them (`DataType.exists_dataType`);
* `Field.exists_restored` adds the id, whose text is read back unless it has too many digits;
* `TableSchema.exists_ofColumns_columns` takes all fields together.  The limit on digits is there:
  see `TableSchema.not_ofColumns_columns_farSchema`.
-/

namespace MergeOnRead

/-! ## Types of fields -/

namespace DataType

/-- The types without parts that fields can have: those with a fixed name, decimals of 128 bits with
a scale that is not negative, and timestamps without a zone. -/
theorem flatType_cases {name : String} {t : FlatType} (h : flatType name = .ok (some t)) :
    t ∈ namedTypes.map (·.2) ∨
      (∃ precision scale : Nat, FlatType.makeDecimal false precision scale = .ok t) ∨
      ∃ unit, t = .timestamp unit none := by
  have hdecimal : ∀ {precision scale : Nat},
      (decimalType precision scale).map some = .ok (some t) →
        ∃ precision scale : Nat, FlatType.makeDecimal false precision scale = .ok t := by
    intro precision scale hmake
    obtain ⟨t', ht', hsame⟩ := map_eq_ok_iff.1 hmake
    cases hsame
    exact ⟨precision, scale, ht'⟩
  rw [flatType] at h
  split at h
  · rename_i type hnamed
    cases h
    obtain ⟨before, behind, hnames, -⟩ := List.lookup_eq_some_iff.1 hnamed
    exact .inl (List.mem_map.2
      ⟨(_, t), hnames ▸ List.mem_append_right _ (List.mem_cons_self ..), rfl⟩)
  · split at h
    · cases h
      exact .inl (by decide)
    · split at h
      · cases h
        exact .inl (by decide)
      · split at h
        · split at h
          · obtain ⟨precision, -, h⟩ := bind_eq_ok_iff.1 h
            obtain ⟨scale, -, h⟩ := bind_eq_ok_iff.1 h
            exact .inr (.inl (hdecimal h))
          · exact .inr (.inl (hdecimal h))
        · split at h
          · obtain ⟨digits, -, h⟩ := bind_eq_ok_iff.1 h
            cases h
            exact .inr (.inr ⟨_, rfl⟩)
          · cases h
            exact .inr (.inr ⟨_, rfl⟩)
        · cases h

end DataType

namespace FlatType

/-- They are told by their names. -/
theorem exists_typeName_of_flatType {name : String} {t : FlatType}
    (h : DataType.flatType name = .ok (some t)) :
    ∃ known, t.typeName? = some known ∧ DataType.flatType known = .ok (some t) := by
  have hfield : t.isBuilt = true ∧ t.isTold = true ∧ t.narrowed = t ∧
      t.typeName?.isSome = true := by
    rcases DataType.flatType_cases h with hnamed | ⟨precision, scale, hmake⟩ | ⟨unit, rfl⟩
    · have hall : ∀ t ∈ DataType.namedTypes.map (·.2), t.isBuilt = true ∧ t.isTold = true ∧
          t.narrowed = t ∧ t.typeName?.isSome = true := by decide
      exact hall t hnamed
    · obtain ⟨-, -, rfl⟩ := makeDecimal_eq_ok_iff.1 hmake
      exact ⟨isBuilt_decimal_iff.2 (by simpa using hmake), by simp [isTold], rfl, rfl⟩
    · cases unit <;> decide
  obtain ⟨hbuilt, htold, hnarrow, hknown⟩ := hfield
  obtain ⟨known, hknown⟩ := Option.isSome_iff_exists.1 hknown
  refine ⟨known, hknown, ?_⟩
  rw [flatType_typeName hbuilt hknown, (readBack_eq_narrowed_iff hbuilt).2 htold, hnarrow]
  rfl

end FlatType

/-- The column type of a field has a type of field, which has this column type again. -/
theorem DataType.exists_dataType : {d : DataType} → {a : ColumnType} → d.columnType = .ok a →
    ∀ nullable, ∃ d', a.dataType nullable = .ok d' ∧ d'.nullable = nullable ∧
      d'.columnType = .ok a
  | .atomic name _, a, h, nullable => by
      rw [columnType] at h
      obtain ⟨found, hfound, h⟩ := bind_eq_ok_iff.1 h
      cases found with
      | none => cases h
      | some t =>
          cases h
          obtain ⟨known, hknown, hfound⟩ := FlatType.exists_typeName_of_flatType hfound
          exact ⟨.atomic known nullable, by rw [ColumnType.dataType, hknown], rfl,
            columnType_atomic_iff.2 hfound⟩
  | .array element _, a, h, nullable => by
      rw [columnType] at h
      obtain ⟨item, hitem, h⟩ := bind_eq_ok_iff.1 h
      cases h
      obtain ⟨element', helement, -, hagain⟩ := exists_dataType hitem true
      exact ⟨.array element' nullable, by rw [ColumnType.dataType, helement]; rfl, rfl,
        columnType_array_iff.2 hagain⟩
  | .map key value _, a, h, nullable => by
      rw [columnType] at h
      obtain ⟨k, hk, h⟩ := bind_eq_ok_iff.1 h
      obtain ⟨v, hv, h⟩ := bind_eq_ok_iff.1 h
      cases h
      obtain ⟨key', hkey, -, hkeyAgain⟩ := exists_dataType hk false
      obtain ⟨value', hvalue, -, hvalueAgain⟩ := exists_dataType hv true
      exact ⟨.map key' value' nullable, by rw [ColumnType.dataType, hkey, hvalue]; rfl, rfl,
        columnType_map_iff.2 ⟨hkeyAgain, hvalueAgain⟩⟩

/-! ## Fields -/

namespace Field

/-- What the column of a field says of it: everything but its description and the words in which its
type is told. -/
structure IsRestored (f g : Field) : Prop where
  id_eq : g.id = f.id
  name_eq : g.name = f.name
  nullable_eq : g.nullable = f.nullable
  column_eq : g.column = f.column

/-- The column of a field says what the field is, wherever the column stands. -/
theorem exists_restored {f : Field} {c : ColumnField} (hc : f.column = .ok c) :
    ∃ g, (∀ place, c.field place = .ok g) ∧ f.IsRestored g := by
  obtain ⟨type, htype, hid, rfl⟩ := column_eq_ok_iff.1 hc
  obtain ⟨type', hfound, hnullable, hagain⟩ := DataType.exists_dataType htype f.nullable
  refine ⟨⟨f.id, f.name, type', none⟩, fun place => ?_, rfl, rfl, hnullable, ?_⟩
  · have hread : ColumnField.readId (toString f.id) = .ok f.id := by
      rw [ColumnField.readId_toString]
      exact if_neg (Nat.not_lt.2 hid)
    simp only [ColumnField.field]
    rw [hread, ok_bind, hfound]
    rfl
  · rw [hc]
    refine column_eq_ok_iff.2 ⟨type, hagain, hid, ?_⟩
    change _ = ColumnField.mk f.name type type'.nullable (some (toString f.id))
    rw [hnullable]

/-- The columns of fields say what these are. -/
theorem exists_restored_of_columns {fields : List Field} {columns : List ColumnField}
    (hcolumns : List.Forall₂ (fun f c => f.column = .ok c) fields columns) :
    ∃ restored, List.Forall₂ (fun c g => ∀ place, ColumnField.field place c = .ok g) columns
        restored ∧
      List.Forall₂ IsRestored fields restored := by
  induction hcolumns with
  | nil => exact ⟨[], .nil, .nil⟩
  | @cons f c fields columns hc hrest ih =>
      obtain ⟨g, hfield, hg⟩ := exists_restored hc
      obtain ⟨restored, hfields, hrestored⟩ := ih
      exact ⟨g :: restored, .cons hfield hfields, .cons hg hrestored⟩

end Field

theorem ColumnField.fields_eq_ok {columns : List ColumnField} {fields : List Field}
    (h : List.Forall₂ (fun c f => ∀ place, ColumnField.field place c = .ok f) columns fields) :
    ColumnField.fields columns = .ok fields := by
  have hfrom : ∀ place, (columns.zipIdx place).mapM (fun p => ColumnField.field p.2 p.1) =
      .ok fields := by
    induction h with
    | nil => exact fun _ => rfl
    | @cons c f columns fields hfirst hrest ih =>
        intro place
        rw [List.zipIdx_cons, List.mapM_cons, ih]
        simp only [hfirst place]
        rfl
  exact hfrom 0

/-! ## Schemas -/

namespace TableSchema

/-- What the columns of a schema say of it. -/
structure IsRestored (s r : TableSchema) : Prop where
  ids_eq : r.fieldIds = s.fieldIds
  names_eq : r.fieldNames = s.fieldNames
  nullable_eq : r.fields.map (·.nullable) = s.fields.map (·.nullable)
  partitionKeys_eq : r.partitionKeys = s.partitionKeys
  columns_eq : r.columns = s.columns
  /-- The columns of the restored schema say all of it. -/
  again : ∀ columns, r.columns = .ok columns → ofColumns columns r.partitionKeys [] = .ok r

theorem ofColumns_eq {columns : List ColumnField} {fields : List Field} {keys : List String}
    (hfields : ColumnField.fields columns = .ok fields)
    (hids : ∀ c ∈ columns, c.fieldId.isSome = true) :
    ofColumns columns keys [] = (make 0 fields keys none []).mapError .schema := by
  have hsame : (if columns.all fun c => c.fieldId.isNone then
      fields.map fun f => { f with id := f.id + 1 } else fields) = fields := by
    cases columns with
    | nil =>
        cases hfields
        rfl
    | cons c columns =>
        have hsome := hids c (List.mem_cons_self ..)
        rw [if_neg (by simp [Option.isSome_iff_ne_none.1 hsome])]
  rw [ofColumns, hfields, ok_bind]
  simp only [hsame]

/-- **A schema is restored from its columns**, as far as these carry it. -/
theorem exists_ofColumns_columns {s : TableSchema} (hids : s.fieldIds.Nodup)
    (htypes : ∀ f ∈ s.fields, ∃ type, f.type.columnType = .ok type)
    (hdigits : ∀ f ∈ s.fields, f.idDigits ≤ Numeral.maxDigits) :
    ∃ columns r, s.columns = .ok columns ∧ ofColumns columns s.partitionKeys [] = .ok r ∧
      s.IsRestored r := by
  obtain ⟨columns, hcolumns⟩ : ∃ columns, s.columns = .ok columns := by
    refine exists_mapM_eq_ok fun f hf => ?_
    obtain ⟨type, htype⟩ := htypes f hf
    exact ⟨_, Field.column_eq_ok_iff.2 ⟨type, htype, hdigits f hf, rfl⟩⟩
  have hfields := mapM_eq_ok_iff.1 hcolumns
  obtain ⟨restored, hread, hrestored⟩ := Field.exists_restored_of_columns hfields
  have hsame : ∀ {β : Type} {part : Field → β}, (∀ f g, f.IsRestored g → part g = part f) →
      restored.map part = s.fields.map part := by
    intro β part hpart
    have hmap := List.forall₂_map_left_iff.2 (List.forall₂_map_right_iff.2
      (hrestored.imp fun f g h => (hpart f g h).symm))
    exact (List.forall₂_eq_eq_eq ▸ hmap).symm
  have hknown : ∀ c ∈ columns, c.fieldId.isSome = true := by
    intro c hc
    obtain ⟨f, -, hcolumn⟩ := exists_mem_of_forall₂ hfields hc
    obtain ⟨type, -, -, rfl⟩ := Field.column_eq_ok_iff.1 hcolumn
    rfl
  have hrestoredIds : (restored.map (·.id)).Nodup := by
    rw [hsame fun f g h => h.id_eq]
    exact hids
  have hmake : ofColumns columns s.partitionKeys [] =
      .ok ⟨0, restored, s.partitionKeys, highestOf (restored.map (·.id)), []⟩ := by
    rw [ofColumns_eq (ColumnField.fields_eq_ok hread) hknown,
      make_eq_ok_iff.2 ⟨hrestoredIds, rfl⟩]
    rfl
  have hcolumnsAgain : Field.columns restored = Field.columns s.fields := by
    rw [Field.columns, Field.columns, ← mapM_id_map Field.column restored,
      ← mapM_id_map Field.column s.fields, hsame fun f g h => h.column_eq]
  refine ⟨columns, _, hcolumns, hmake, ?_⟩
  exact {
    ids_eq := hsame fun f g h => h.id_eq
    names_eq := hsame fun f g h => h.name_eq
    nullable_eq := hsame fun f g h => h.nullable_eq
    partitionKeys_eq := rfl
    columns_eq := hcolumnsAgain
    again := by
      intro columns' h
      have hcolumns' : columns' = columns := by
        rw [TableSchema.columns, hcolumnsAgain] at h
        exact Except.ok.inj (h.symm.trans hcolumns)
      rw [hcolumns', hmake] }

/-- Types in words of their own, of which the columns keep less, and a negative id. -/
def wordySchema : TableSchema where
  id := 4
  fields := [
    ⟨7, "a", .map (.atomic "varchar(3)" true) (.array (.atomic "decimal(5,  2)" false) true) false,
      some "prices"⟩,
    ⟨-3, "b", .atomic "Timestamp(2)" true, none⟩]
  partitionKeys := ["b"]
  highestFieldId := 9
  options := []

theorem exists_ofColumns_columns_wordySchema : ∃ columns r, wordySchema.columns = .ok columns ∧
    ofColumns columns wordySchema.partitionKeys [] = .ok r ∧ wordySchema.IsRestored r := by
  refine exists_ofColumns_columns (by decide) ?_ (by decide)
  intro f hf
  rcases List.mem_cons.1 hf with rfl | hf
  · exact exists_eq_ok_of_isSome (by decide +kernel)
  · obtain rfl := List.mem_singleton.1 hf
    exact exists_eq_ok_of_isSome (by decide +kernel)

/-- The least positive id with a number of digits. -/
def leastId (digits : Nat) : Int := (Nat.pow 10 (digits - 1) : Nat)

theorem length_leastId {digits : Nat} (h : 0 < digits) :
    (Nat.toDigits 10 (leastId digits).natAbs).length = digits := by
  rw [leastId, Int.natAbs_natCast]
  have hshort : (Nat.toDigits 10 (Nat.pow 10 (digits - 1))).length ≤ digits :=
    (Nat.length_toDigits_le_iff (by decide) h).2 (Nat.pow_lt_pow_right (by decide) (by omega))
  have hlong : 0 < digits - 1 →
      ¬(Nat.toDigits 10 (Nat.pow 10 (digits - 1))).length ≤ digits - 1 := by
    intro hpositive
    rw [Nat.length_toDigits_le_iff (by decide) hpositive]
    exact Nat.lt_irrefl _
  have hone : 0 < (Nat.toDigits 10 (Nat.pow 10 (digits - 1))).length := Nat.length_toDigits_pos
  omega

/-- A schema with an id of 4301 digits. -/
def farSchema : TableSchema where
  id := 0
  fields := [⟨leastId 4301, "a", .atomic "INT" true, none⟩]
  partitionKeys := []
  highestFieldId := leastId 4301
  options := []

/-- A field whose id has too many digits has no column. -/
theorem not_ofColumns_columns_farSchema : farSchema.fieldIds.Nodup ∧
    (∀ f ∈ farSchema.fields, ∃ type, f.type.columnType = .ok type) ∧
      farSchema.columns = .error .unwritableId := by
  have htype : (DataType.atomic "INT" true).columnType = .ok (.flat (.int .w32)) := rfl
  have hwrite : Numeral.writeInt? (leastId 4301) = none := by
    rw [Numeral.writeInt?, length_leastId (by decide)]
    rfl
  refine ⟨List.nodup_singleton _, ?_, ?_⟩
  · intro f hf
    obtain rfl := List.mem_singleton.1 hf
    exact ⟨_, htype⟩
  · simp only [columns, farSchema, Field.columns, List.mapM_cons, Field.column, htype, ok_bind,
      hwrite]
    rfl

end TableSchema

end MergeOnRead
